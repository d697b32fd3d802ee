import Keyspace.Bytes
import Keyspace.Document.Basic
import Keyspace.Part
import Keyspace.Text.Hex

/-!
Forms: how values of a type are written as documents, and which documents are read as them.
A record can be given with the names of its members, and most records also as the list of their
members in order.
-/

namespace Keyspace

/-- What becomes of the items of a list that stand after the last member of a record. -/
inductive Surplus
  | refused
  | ignored
  deriving DecidableEq, Inhabited, Repr

structure Form (α : Type) where
  write : α → Document
  read? : Surplus → Document → Option α

namespace Form

def bool : Form Bool where
  write := .bool
  read?
    | _, .bool b => some b
    | _, _ => none

def text : Form String where
  write := .text
  read?
    | _, .text s => some s
    | _, _ => none

def int (least most : Int) : Form Int where
  write := .int
  read?
    | _, .int n => if least ≤ n ∧ n ≤ most then some n else none
    | _, _ => none

def via (form : Form β) (forth : α → β) (back : β → α) : Form α where
  write a := form.write (forth a)
  read? surplus d := (form.read? surplus d).map back

def int64 : Form Int64 :=
  (int Int64.minValue.toInt Int64.maxValue.toInt).via Int64.toInt Int64.ofInt

def int32 : Form Int32 :=
  (int Int32.minValue.toInt Int32.maxValue.toInt).via Int32.toInt Int32.ofInt

def uint64 : Form UInt64 :=
  (int 0 (UInt64.size - 1)).via (fun n => n.toNat) fun n => UInt64.ofNat n.toNat

def byte : Form UInt8 :=
  (int 0 255).via (fun n => n.toNat) fun n => UInt8.ofNat n.toNat

def list (form : Form α) : Form (List α) where
  write vs := .list (vs.map form.write)
  read?
    | surplus, .list ds => ds.mapM (form.read? surplus)
    | _, _ => none

/-- A value that may be absent, which is written as null. -/
def option (form : Form α) : Form (Option α) where
  write
    | none => .null
    | some v => form.write v
  read?
    | _, .null => some none
    | surplus, d => (form.read? surplus d).map some

def bytes : Form Bytes :=
  list byte

def hex : Form Bytes where
  write s := .text s.toHex
  read?
    | _, .text s => Bytes.ofHex? s
    | _, _ => none

/-- Bytes as the list of their numbers. A text is read as the bytes that encode it. -/
def blob : Form Bytes where
  write := bytes.write
  read?
    | _, .text s => some (Bytes.ofText s)
    | surplus, d => bytes.read? surplus d

/-- One of a closed set of names. A record with the name as its one member, and nothing in it, is
read as the name too. -/
def name (all : List α) (name : α → String) : Form α where
  write v := .text (name v)
  read?
    | _, .text s => all.find? (name · = s)
    | _, .record [(s, .null)] => all.find? (name · = s)
    | _, _ => none

/-- One of several kinds of values, as a record whose one member is named for the kind. -/
def choice (write : α → String × Document)
    (kinds : List (String × (Surplus → Document → Option α))) : Form α where
  write v := .record [write v]
  read?
    | surplus, .record [(kind, d)] => (kinds.lookup kind).bind fun read => read surplus d
    | _, _ => none

def kind (name : String) (form : Form β) (make : β → α) :
    String × (Surplus → Document → Option α) :=
  (name, fun surplus d => (form.read? surplus d).map make)

end Form

/-- Where a member of a record has to be given. -/
inductive Need
  | always
  /-- A list of the members must have it, a record with names need not. -/
  | inList
  | never
  deriving DecidableEq, Inhabited, Repr

/-- One member of a record: its name, and how it is written and read over a given record. -/
structure Form.Member (σ : Type) where
  name : String
  need : Need
  write : σ → Document
  read? : Surplus → Document → σ → Option σ

namespace Form.Member

def of (name : String) (form : Form α) (part : Part σ α) (need : Need := .always) : Member σ where
  name
  need
  write v := form.write (part.get v)
  read? surplus d v := (form.read? surplus d).map fun a => part.set a v

/-- A member that a record with names may leave out, as if it were null. -/
def option (name : String) (form : Form α) (part : Part σ (Option α)) : Member σ :=
  .of name form.option part .inList

def free (name : String) (form : Form α) (part : Part σ α) : Member σ :=
  .of name form part .never

/-- Reads the members by their names. Those of other names are passed over. -/
def readNamed (surplus : Surplus) (given : List (String × Document)) :
    List (Member σ) → σ → Option σ
  | [], v => some v
  | m :: ms, v =>
      match given.lookup m.name with
      | some d => (m.read? surplus d v).bind (readNamed surplus given ms)
      | none => if m.need = .always then none else readNamed surplus given ms v

def readListed (surplus : Surplus) : List (Member σ) → List Document → σ → Option σ
  | [], [], v => some v
  | [], _ :: _, v => if surplus = .ignored then some v else none
  | m :: ms, d :: ds, v => (m.read? surplus d v).bind (readListed surplus ms ds)
  | m :: ms, [], v => if m.need = .never then readListed surplus ms [] v else none

end Form.Member

/-- The form of a record. Members that may be left out are then as in `blank`. -/
def Form.record (blank : σ) (members : List (Form.Member σ)) : Form σ where
  write v := .record (members.map fun m => (m.name, m.write v))
  read?
    | surplus, .record given => Form.Member.readNamed surplus given members blank
    | surplus, .list ds => Form.Member.readListed surplus members ds blank
    | _, _ => none

/-- The form of a record that is not read from a list of its members. -/
def Form.named (blank : σ) (members : List (Form.Member σ)) : Form σ where
  write := (Form.record blank members).write
  read?
    | surplus, .record given => Form.Member.readNamed surplus given members blank
    | _, _ => none

end Keyspace
