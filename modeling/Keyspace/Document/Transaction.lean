import Keyspace.Document.Result
import Keyspace.Transaction

namespace Keyspace

def SortOrder.form : Form SortOrder :=
  .name all name

def SortTarget.form : Form SortTarget :=
  .name all name

def PutOptions.form : Form PutOptions :=
  .record {} [
    .of "lease" .int64 ⟨lease, fun a v => { v with lease := a }⟩,
    .of "prev_kv" .bool ⟨prevKv, fun a v => { v with prevKv := a }⟩]

def GetOptions.form : Form GetOptions :=
  .record {} [
    .option "end_key" .bytes ⟨endKey, fun a v => { v with endKey := a }⟩,
    .of "limit" .int64 ⟨limit, fun a v => { v with limit := a }⟩,
    .of "revision" .int64 ⟨revision, fun a v => { v with revision := a }⟩,
    .of "sort_order" SortOrder.form ⟨sortOrder, fun a v => { v with sortOrder := a }⟩,
    .of "sort_target" SortTarget.form ⟨sortTarget, fun a v => { v with sortTarget := a }⟩,
    .of "serializable" .bool ⟨serializable, fun a v => { v with serializable := a }⟩,
    .of "keys_only" .bool ⟨keysOnly, fun a v => { v with keysOnly := a }⟩,
    .of "count_only" .bool ⟨countOnly, fun a v => { v with countOnly := a }⟩]

def DeleteOptions.form : Form DeleteOptions :=
  .record {} [
    .option "end_key" .bytes ⟨endKey, fun a v => { v with endKey := a }⟩,
    .of "prev_kv" .bool ⟨prevKv, fun a v => { v with prevKv := a }⟩]

def CompactOptions.form : Form CompactOptions :=
  .record {} [
    .of "revision" .int64 ⟨revision, fun a v => { v with revision := a }⟩,
    .of "physical" .bool ⟨physical, fun a v => { v with physical := a }⟩]

def Relation.form : Form Relation :=
  .name all name

def Bound.form : Form Bound :=
  let write : Bound → String × Document
    | .version n => ("Version", Form.int64.write n)
    | .createRevision n => ("CreateRevision", Form.int64.write n)
    | .modRevision n => ("ModRevision", Form.int64.write n)
    | .value bytes => ("Value", Form.bytes.write bytes)
  .choice write [
    Form.kind "Version" .int64 .version,
    Form.kind "CreateRevision" .int64 .createRevision,
    Form.kind "ModRevision" .int64 .modRevision,
    Form.kind "Value" .bytes .value]

def Condition.form : Form Condition :=
  .record ⟨[], .equal, .version 0⟩ [
    .of "key" .bytes ⟨key, fun a v => { v with key := a }⟩,
    .of "op" Relation.form ⟨relation, fun a v => { v with relation := a }⟩,
    .of "target" Bound.form ⟨bound, fun a v => { v with bound := a }⟩]

namespace Operation

def putForm : Form (Bytes × Bytes × PutOptions) :=
  .named ([], [], {}) [
    .of "key" .bytes ⟨fun v => v.1, fun a v => (a, v.2)⟩,
    .of "value" .bytes ⟨fun v => v.2.1, fun a v => (v.1, a, v.2.2)⟩,
    .of "options" PutOptions.form ⟨fun v => v.2.2, fun a v => (v.1, v.2.1, a)⟩]

def rangeForm (form : Form ω) (blank : ω) : Form (Bytes × ω) :=
  .named ([], blank) [
    .of "key" .bytes ⟨fun v => v.1, fun a v => (a, v.2)⟩,
    .of "options" form ⟨fun v => v.2, fun a v => (v.1, a)⟩]

def getForm : Form (Bytes × GetOptions) :=
  rangeForm GetOptions.form {}

def deleteForm : Form (Bytes × DeleteOptions) :=
  rangeForm DeleteOptions.form {}

def form : Form Operation :=
  let write : Operation → String × Document
    | .put key value options => ("Put", putForm.write (key, value, options))
    | .get key options => ("Get", getForm.write (key, options))
    | .delete key options => ("Delete", deleteForm.write (key, options))
  .choice write [
    Form.kind "Put" putForm fun (key, value, options) => .put key value options,
    Form.kind "Get" getForm fun (key, options) => .get key options,
    Form.kind "Delete" deleteForm fun (key, options) => .delete key options]

end Operation

def Transaction.form : Form Transaction :=
  .record {} [
    .of "compares" Condition.form.list ⟨conditions, fun a v => { v with conditions := a }⟩,
    .of "success" Operation.form.list ⟨success, fun a v => { v with success := a }⟩,
    .of "failure" Operation.form.list ⟨failure, fun a v => { v with failure := a }⟩]

def OperationResult.form : Form OperationResult :=
  let write : OperationResult → String × Document
    | .put result => ("Put", PutResult.form.write result)
    | .range result => ("Range", RangeResult.form.write result)
    | .delete result => ("Delete", DeleteResult.form.write result)
  .choice write [
    Form.kind "Put" PutResult.form .put,
    Form.kind "Range" RangeResult.form .range,
    Form.kind "Delete" DeleteResult.form .delete]

def TxnResult.form : Form TxnResult :=
  .record ⟨{}, false, []⟩ [
    .of "header" Header.form ⟨header, fun a v => { v with header := a }⟩,
    .of "succeeded" .bool ⟨succeeded, fun a v => { v with succeeded := a }⟩,
    .of "results" OperationResult.form.list ⟨results, fun a v => { v with results := a }⟩]

end Keyspace
