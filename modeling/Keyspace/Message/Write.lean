import Keyspace.Message.KeyValue

namespace Keyspace

open Wire

structure PutRequest where
  key : Bytes := []
  value : Bytes := []
  lease : Int64 := 0
  prevKv : Bool := false
  ignoreValue : Bool := false
  ignoreLease : Bool := false
  deriving DecidableEq, Inhabited, Repr

def PutRequest.codec : Codec PutRequest where
  empty := {}
  fields := [
    .scalar 1 .bytes ⟨key, fun v m => { m with key := v }⟩,
    .scalar 2 .bytes ⟨value, fun v m => { m with value := v }⟩,
    .scalar 3 .int64 ⟨lease, fun v m => { m with lease := v }⟩,
    .scalar 4 .bool ⟨prevKv, fun v m => { m with prevKv := v }⟩,
    .scalar 5 .bool ⟨ignoreValue, fun v m => { m with ignoreValue := v }⟩,
    .scalar 6 .bool ⟨ignoreLease, fun v m => { m with ignoreLease := v }⟩]

structure PutResponse where
  header : Option Header := none
  prevKv : Option KeyValue := none
  deriving DecidableEq, Inhabited, Repr

def PutResponse.codec : Codec PutResponse where
  empty := {}
  fields := [
    .optional 1 Header.codec ⟨header, fun v m => { m with header := v }⟩,
    .optional 2 KeyValue.codec ⟨prevKv, fun v m => { m with prevKv := v }⟩]

structure DeleteRangeRequest where
  key : Bytes := []
  rangeEnd : Bytes := []
  prevKv : Bool := false
  deriving DecidableEq, Inhabited, Repr

def DeleteRangeRequest.codec : Codec DeleteRangeRequest where
  empty := {}
  fields := [
    .scalar 1 .bytes ⟨key, fun v m => { m with key := v }⟩,
    .scalar 2 .bytes ⟨rangeEnd, fun v m => { m with rangeEnd := v }⟩,
    .scalar 3 .bool ⟨prevKv, fun v m => { m with prevKv := v }⟩]

structure DeleteRangeResponse where
  header : Option Header := none
  deleted : Int64 := 0
  prevKvs : List KeyValue := []
  deriving DecidableEq, Inhabited, Repr

def DeleteRangeResponse.codec : Codec DeleteRangeResponse where
  empty := {}
  fields := [
    .optional 1 Header.codec ⟨header, fun v m => { m with header := v }⟩,
    .scalar 2 .int64 ⟨deleted, fun v m => { m with deleted := v }⟩,
    .repeated 3 KeyValue.codec ⟨prevKvs, fun v m => { m with prevKvs := v }⟩]

structure CompactionRequest where
  revision : Int64 := 0
  physical : Bool := false
  deriving DecidableEq, Inhabited, Repr

def CompactionRequest.codec : Codec CompactionRequest where
  empty := {}
  fields := [
    .scalar 1 .int64 ⟨revision, fun v m => { m with revision := v }⟩,
    .scalar 2 .bool ⟨physical, fun v m => { m with physical := v }⟩]

structure CompactionResponse where
  header : Option Header := none
  deriving DecidableEq, Inhabited, Repr

def CompactionResponse.codec : Codec CompactionResponse where
  empty := {}
  fields := [.optional 1 Header.codec ⟨header, fun v m => { m with header := v }⟩]

end Keyspace
