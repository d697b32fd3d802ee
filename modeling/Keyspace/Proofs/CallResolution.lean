import Keyspace.Proofs.CallEvents

namespace Keyspace.Call

variable {α β : Type}

section

variable {context : Context} {convert : α → Option (Outcome β)} {events : List (Event α)}
  {event : Event α}

theorem after_take_succ {place : Nat} (hevent : events[place]? = some event) :
    after context convert (events.take (place + 1)) =
      (after context convert (events.take place)).happen event := by
  rw [after, List.take_add_one, hevent, Option.toList_some, List.foldl_append]
  rfl

theorem Gave.mono {before past : List (Event α)} {ending : Ending α}
    (h : Gave context before ending) (hpast : before <+: past) : Gave context past ending := by
  obtain ⟨first, own, hfirst, hown⟩ := h
  exact ⟨first, own, hfirst.trans hpast, hown⟩

theorem Gave.unique {past : List (Event α)} {ending ending' : Ending α}
    (h : Gave context past ending) (h' : Gave context past ending') : ending = ending' := by
  obtain ⟨t, -, ht⟩ := (tracks_after (β := Unit) context (fun _ => none) past).task
  exact Option.some.inj (((ht.ending_iff _).mpr h).symm.trans ((ht.ending_iff _).mpr h'))

end

end Keyspace.Call
