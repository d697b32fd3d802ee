import Keyspace.Proofs.StoreInvariants
import Keyspace.Transaction

namespace Keyspace

/-- The first value stands in the relation to the second. -/
def CompareResult.Relates {α : Type} [LT α] : CompareResult → α → α → Prop
  | equal, a, b => a = b
  | notEqual, a, b => a ≠ b
  | greater, a, b => b < a
  | less, a, b => a < b

def Relation.Relates {α : Type} [LT α] : Relation → α → α → Prop
  | equal, a, b => a = b
  | greater, a, b => b < a
  | less, a, b => a < b

instance {α : Type} [LT α] [DecidableEq α] [DecidableLT α] :
    ∀ (result : CompareResult) (a b : α), Decidable (result.Relates a b)
  | .equal, a, b => inferInstanceAs (Decidable (a = b))
  | .notEqual, a, b => inferInstanceAs (Decidable (a ≠ b))
  | .greater, a, b => inferInstanceAs (Decidable (b < a))
  | .less, a, b => inferInstanceAs (Decidable (a < b))

instance {α : Type} [LT α] [DecidableEq α] [DecidableLT α] :
    ∀ (relation : Relation) (a b : α), Decidable (relation.Relates a b)
  | .equal, a, b => inferInstanceAs (Decidable (a = b))
  | .greater, a, b => inferInstanceAs (Decidable (b < a))
  | .less, a, b => inferInstanceAs (Decidable (a < b))

@[simp] theorem CompareResult.ofWire?_wire (result : CompareResult) :
    ofWire? result.wire = some result := by
  cases result <;> rfl

@[simp] theorem CompareTarget.ofWire?_wire (target : CompareTarget) :
    ofWire? target.wire = some target := by
  cases target <;> rfl

def Operand.target : Operand → CompareTarget
  | version _ => .version
  | createRevision _ => .createRevision
  | modRevision _ => .modRevision
  | value _ => .value
  | lease _ => .lease

theorem Bound.target_operand (bound : Bound) : bound.operand.target = bound.target := by
  cases bound <;> rfl

namespace Compare

/-- The comparison names a relation or a target that there is not, or its operand is missing or
not of the kind that the target asks for. -/
def Malformed (c : Compare) : Prop :=
  CompareResult.ofWire? c.result = none ∨ CompareTarget.ofWire? c.target = none ∨
    c.operand.map Operand.target ≠ CompareTarget.ofWire? c.target

instance (c : Compare) : Decidable c.Malformed :=
  inferInstanceAs (Decidable (_ ∨ _ ∨ _))

/-- The comparison holds of one key, or of a key that is not there. The latter counts as zero
where numbers are compared, and has no value. -/
def HoldsOf (c : Compare) (result : CompareResult) (l : Option Live) : Prop :=
  match c.operand with
  | some (.version n) => result.Relates ((l.elim 0 Live.version : Nat) : Int) n.toInt
  | some (.createRevision n) => result.Relates ((l.elim 0 Live.created : Nat) : Int) n.toInt
  | some (.modRevision n) => result.Relates ((l.elim 0 Live.modified : Nat) : Int) n.toInt
  | some (.lease n) => result.Relates (l.elim 0 Live.lease).toInt n.toInt
  | some (.value bytes) => ∃ x ∈ l, result.Relates x.value bytes
  | none => False

instance (result : CompareResult) (l : Option Live) : ∀ c, Decidable (HoldsOf c result l)
  | ⟨_, _, _, none, _⟩ => inferInstanceAs (Decidable False)
  | ⟨_, _, _, some (.value bytes), _⟩ =>
      inferInstanceAs (Decidable (∃ x ∈ l, result.Relates x.value bytes))
  | ⟨_, _, _, some (.version n), _⟩ => inferInstanceAs (Decidable (result.Relates _ n.toInt))
  | ⟨_, _, _, some (.createRevision n), _⟩ =>
      inferInstanceAs (Decidable (result.Relates _ n.toInt))
  | ⟨_, _, _, some (.modRevision n), _⟩ => inferInstanceAs (Decidable (result.Relates _ n.toInt))
  | ⟨_, _, _, some (.lease n), _⟩ => inferInstanceAs (Decidable (result.Relates _ n.toInt))

/-- The comparison holds of all keys of its span that are there, or of a missing key if there are
none. -/
def Holds (s : Store) (c : Compare) : Prop :=
  ∃ result ∈ CompareResult.ofWire? c.result,
    ((∀ l ∈ s.live, c.span.covers l.key = false) → c.HoldsOf result none) ∧
      ∀ l ∈ s.live, c.span.covers l.key = true → c.HoldsOf result (some l)

instance (s : Store) (c : Compare) : Decidable (c.Holds s) :=
  inferInstanceAs (Decidable (∃ result ∈ CompareResult.ofWire? c.result, _))

end Compare

namespace Condition

/-- The condition has a key, and compares with no negative number. -/
def Valid (c : Condition) : Prop :=
  c.key ≠ [] ∧
    match c.bound with
    | .version n | .createRevision n | .modRevision n => 0 ≤ n
    | .value _ => True

instance : ∀ c : Condition, Decidable c.Valid
  | ⟨key, _, .version n⟩ => inferInstanceAs (Decidable (key ≠ [] ∧ 0 ≤ n))
  | ⟨key, _, .createRevision n⟩ => inferInstanceAs (Decidable (key ≠ [] ∧ 0 ≤ n))
  | ⟨key, _, .modRevision n⟩ => inferInstanceAs (Decidable (key ≠ [] ∧ 0 ≤ n))
  | ⟨key, _, .value _⟩ => inferInstanceAs (Decidable (key ≠ [] ∧ True))

/-- The condition holds of the latest state of its key. -/
def Holds (s : Store) (c : Condition) : Prop :=
  match c.bound with
  | .version n =>
      c.relation.Relates (((s.latest? c.key).elim 0 Live.version : Nat) : Int) n.toInt
  | .createRevision n =>
      c.relation.Relates (((s.latest? c.key).elim 0 Live.created : Nat) : Int) n.toInt
  | .modRevision n =>
      c.relation.Relates (((s.latest? c.key).elim 0 Live.modified : Nat) : Int) n.toInt
  | .value bytes => ∃ l ∈ s.latest? c.key, c.relation.Relates l.value bytes

instance (s : Store) : ∀ c : Condition, Decidable (c.Holds s)
  | ⟨_, relation, .version n⟩ => inferInstanceAs (Decidable (relation.Relates _ n.toInt))
  | ⟨_, relation, .createRevision n⟩ => inferInstanceAs (Decidable (relation.Relates _ n.toInt))
  | ⟨_, relation, .modRevision n⟩ => inferInstanceAs (Decidable (relation.Relates _ n.toInt))
  | ⟨key, relation, .value bytes⟩ =>
      inferInstanceAs (Decidable (∃ l ∈ s.latest? key, relation.Relates l.value bytes))

def compare (c : Condition) : Compare where
  result := c.relation.toResult.wire
  target := c.bound.target.wire
  key := c.key
  operand := some c.bound.operand

end Condition

theorem CompareResult.holds_compareOfLessAndEq {α : Type} [LT α] [LE α] [DecidableEq α]
    [DecidableLT α] [Std.IsLinearOrder α] [Std.LawfulOrderLT α] (result : CompareResult)
    (a b : α) : result.holds (compareOfLessAndEq a b) = true ↔ result.Relates a b := by
  have hirrefl : ∀ x : α, ¬x < x := fun _ => Std.lt_irrefl
  rcases Std.lt_trichotomy a b with hlt | rfl | hgt
  · have hne : a ≠ b := Std.ne_of_lt hlt
    have hnot : ¬b < a := fun h => hirrefl a (Std.lt_trans hlt h)
    cases result <;> simp [holds, Relates, compareOfLessAndEq, hlt, hne, hnot]
  · cases result <;> simp [holds, Relates, compareOfLessAndEq, hirrefl]
  · have hne : a ≠ b := (Std.ne_of_lt hgt).symm
    have hnot : ¬a < b := fun h => hirrefl a (Std.lt_trans h hgt)
    cases result <;> simp [holds, Relates, compareOfLessAndEq, hgt, hne, hnot]

namespace Store

variable {s : Store} {c : Compare} {result : CompareResult} {target : CompareTarget}

theorem holdsFor_eq_ok (result : CompareResult)
    (htarget : c.operand.map Operand.target = some target) (l : Option Live) :
    ∃ b, result.holdsFor target c.operand l = .ok b ∧ (b = true ↔ c.HoldsOf result l) := by
  obtain ⟨operand, hoperand, rfl⟩ := Option.map_eq_some_iff.mp htarget
  rw [Compare.HoldsOf, hoperand]
  cases operand with
  | version n => exact ⟨_, rfl, result.holds_compareOfLessAndEq _ _⟩
  | createRevision n => exact ⟨_, rfl, result.holds_compareOfLessAndEq _ _⟩
  | modRevision n => exact ⟨_, rfl, result.holds_compareOfLessAndEq _ _⟩
  | lease n => exact ⟨_, rfl, result.holds_compareOfLessAndEq _ _⟩
  | value bytes =>
      cases l with
      | none => exact ⟨false, rfl, by simp⟩
      | some x =>
          have hvalue := result.holds_compareOfLessAndEq x.value bytes
          exact ⟨_, rfl, hvalue.trans (by simp)⟩

theorem holdsForAll_eq_ok (result : CompareResult)
    (htarget : c.operand.map Operand.target = some target) (keys : List Live) :
    ∃ b, result.holdsForAll target c.operand keys = .ok b ∧
      (b = true ↔ ∀ l ∈ keys, c.HoldsOf result (some l)) := by
  induction keys with
  | nil => exact ⟨true, rfl, by simp⟩
  | cons l keys ih =>
      obtain ⟨b, hfirst, hb⟩ := holdsFor_eq_ok result htarget (some l)
      rw [CompareResult.holdsForAll, hfirst]
      cases b with
      | true =>
          obtain ⟨b', hrest, hb'⟩ := ih
          refine ⟨b', hrest, ?_⟩
          rw [hb', List.forall_mem_cons, ← hb]
          simp
      | false =>
          refine ⟨false, rfl, ?_⟩
          rw [List.forall_mem_cons, ← hb]
          simp

theorem evaluate_eq_ok (hs : s.table.Indexed) (hc : ¬c.Malformed) :
    ∃ b, s.evaluate c = .ok b ∧ (b = true ↔ c.Holds s) := by
  simp only [Compare.Malformed, not_or, ne_eq, Decidable.not_not] at hc
  obtain ⟨hresult, htarget, hoperand⟩ := hc
  obtain ⟨result, hresult⟩ := Option.ne_none_iff_exists'.mp hresult
  obtain ⟨target, htarget⟩ := Option.ne_none_iff_exists'.mp htarget
  rw [htarget] at hoperand
  have hholds : c.Holds s ↔ (s.scan c.span 0 = [] → c.HoldsOf result none) ∧
      ∀ l ∈ s.scan c.span 0, c.HoldsOf result (some l) := by
    simp [Compare.Holds, hresult, List.eq_nil_iff_forall_not_mem, mem_scan_iff hs, live]
  rw [evaluate, hresult, htarget, hholds]
  cases s.scan c.span 0 with
  | nil =>
      obtain ⟨b, heval, hb⟩ := holdsFor_eq_ok result hoperand none
      exact ⟨b, heval, by simpa using hb⟩
  | cons l keys =>
      obtain ⟨b, heval, hb⟩ := holdsForAll_eq_ok result hoperand (l :: keys)
      exact ⟨b, heval, by simpa using hb⟩

theorem evaluateAll_eq_ok (hs : s.table.Indexed) {cs : List Compare}
    (hcs : ∀ c ∈ cs, ¬c.Malformed) :
    ∃ b, s.evaluateAll cs = .ok b ∧ (b = true ↔ ∀ c ∈ cs, c.Holds s) := by
  induction cs with
  | nil => exact ⟨true, rfl, by simp⟩
  | cons c cs ih =>
      obtain ⟨hhead, htail⟩ := List.forall_mem_cons.mp hcs
      obtain ⟨b, heval, hb⟩ := evaluate_eq_ok hs hhead
      obtain ⟨b', hrest, hb'⟩ := ih htail
      refine ⟨b && b', ?_, ?_⟩
      · rw [evaluateAll, heval]
        simp only [hrest]
      · rw [Bool.and_eq_true, List.forall_mem_cons, hb, hb']

end Store

namespace Condition

variable {s : Store} {c : Condition}

theorem check_eq_ok (hc : c.Valid) : c.check = .ok () := by
  obtain ⟨key, relation, bound⟩ := c
  obtain ⟨hkey, hbound⟩ := hc
  rw [check, if_neg hkey]
  cases bound with
  | version n => exact if_neg (Int64.not_lt.mpr hbound)
  | createRevision n => exact if_neg (Int64.not_lt.mpr hbound)
  | modRevision n => exact if_neg (Int64.not_lt.mpr hbound)
  | value bytes => rfl

theorem toCompare_eq_ok (hc : c.Valid) : c.toCompare = .ok c.compare := by
  rw [toCompare, check_eq_ok hc]
  rfl

theorem not_malformed_compare (c : Condition) : ¬c.compare.Malformed := by
  simp [Compare.Malformed, compare, Bound.target_operand]

theorem relates_toResult {α : Type} [LT α] (relation : Relation) (a b : α) :
    relation.toResult.Relates a b ↔ relation.Relates a b := by
  cases relation <;> rfl

theorem covers_compare (c : Condition) (key : Bytes) :
    c.compare.span.covers key = true ↔ key = c.key := by
  exact decide_eq_true_iff

theorem holds_compare_iff_holdsOf (hs : s.Sound) (c : Condition) :
    c.compare.Holds s ↔ c.compare.HoldsOf c.relation.toResult (s.latest? c.key) := by
  have hresult : CompareResult.ofWire? c.compare.result = some c.relation.toResult :=
    CompareResult.ofWire?_wire _
  simp only [Compare.Holds, hresult, Option.mem_def, Option.some.injEq, exists_eq_left',
    covers_compare, ← Bool.not_eq_true]
  constructor
  · rintro ⟨hmissing, hthere⟩
    cases hl : s.latest? c.key with
    | none =>
        apply hmissing
        intro l hlive hkey
        rw [hs.mem_live_iff.mp ⟨hlive, hkey⟩] at hl
        contradiction
    | some l =>
        obtain ⟨hlive, hkey⟩ := hs.mem_live_iff.mpr hl
        exact hthere l hlive hkey
  · intro h
    constructor
    · intro hmissing
      cases hl : s.latest? c.key with
      | none => rwa [hl] at h
      | some l =>
          obtain ⟨hlive, hkey⟩ := hs.mem_live_iff.mpr hl
          exact absurd hkey (hmissing l hlive)
    · intro l hlive hkey
      rwa [hs.mem_live_iff.mp ⟨hlive, hkey⟩] at h

theorem holds_compare_iff (hs : s.Sound) (c : Condition) : c.compare.Holds s ↔ c.Holds s := by
  rw [holds_compare_iff_holdsOf hs]
  obtain ⟨key, relation, bound⟩ := c
  cases bound with
  | version n => exact relates_toResult relation _ _
  | createRevision n => exact relates_toResult relation _ _
  | modRevision n => exact relates_toResult relation _ _
  | value bytes =>
      refine exists_congr fun l => and_congr_right fun _ => ?_
      exact relates_toResult relation _ _

end Condition

theorem Transaction.toRequest_eq_ok {t : Transaction} (ht : ∀ c ∈ t.conditions, c.Valid) :
    t.toRequest = .ok
      { compare := t.conditions.map Condition.compare
        success := t.success.map fun op => { request := some op.toRequest }
        failure := t.failure.map fun op => { request := some op.toRequest } } := by
  have hcompare : ∀ cs : List Condition, (∀ c ∈ cs, c.Valid) →
      cs.mapM Condition.toCompare = .ok (cs.map Condition.compare) := by
    intro cs hcs
    induction cs with
    | nil => rfl
    | cons c cs ih =>
        obtain ⟨hhead, htail⟩ := List.forall_mem_cons.mp hcs
        rw [List.mapM_cons, Condition.toCompare_eq_ok hhead, ih htail]
        rfl
  rw [toRequest, hcompare t.conditions ht]

namespace Store

variable {s : Store} {r : TxnRequest}

end Store

end Keyspace
