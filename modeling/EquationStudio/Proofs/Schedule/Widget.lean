import EquationStudio.Proofs.Schedule.Pool
import EquationStudio.Proofs.Basic
import EquationStudio.Schedule.Widget

/-!
# Widgets as schedulers

A widget names a call by the number of requests it has seen, those to cancel a call among them. So
no two calls have the same name, and a widget is a scheduler that a routine can rely on
(`Widget.sight`). A call that it makes is a move of the routine that can be made
(`Widget.sight_make`).
-/

namespace EquationStudio.Widget

variable {α : Type} {w : Widget α}

theorem nameAfter_inj {m n : Nat} (h : nameAfter m = nameAfter n) : m = n :=
  Nat.succ.inj (append_toString_inj h)

/-- What a widget keeps: its calls have different names, given to them by requests that it has
seen. -/
structure Sound (w : Widget α) : Prop where
  nodup : (w.waiting.map Prod.fst).Nodup
  named : ∀ q ∈ w.waiting, ∃ n < w.requests.length, q.1 = nameAfter n

theorem Sound.fresh (h : Sound w) : nameAfter w.requests.length ∉ w.waiting.map Prod.fst := by
  intro hmem
  obtain ⟨q, hq, he⟩ := List.mem_map.1 hmem
  obtain ⟨n, hn, hname⟩ := h.named q hq
  exact Nat.ne_of_lt hn (nameAfter_inj (hname.symm.trans he))

theorem Sound.after (h : Sound w) (delay : Datum) (call : α) : Sound (w.after delay call).2 where
  nodup := List.nodup_cons.2 ⟨h.fresh, h.nodup⟩
  named q hq := by
    rcases List.mem_cons.1 hq with rfl | hq
    · exact ⟨w.requests.length, Nat.lt_succ_self _, rfl⟩
    · obtain ⟨n, hn, hname⟩ := h.named q hq
      exact ⟨n, Nat.lt_succ_of_lt hn, hname⟩

theorem Sound.cancel (h : Sound w) (name : String) : Sound (w.cancel name) where
  nodup := h.nodup.sublist (List.filter_sublist.map _)
  named q hq := by
    obtain ⟨n, hn, hname⟩ := h.named q (List.mem_filter.1 hq).1
    exact ⟨n, Nat.lt_succ_of_lt hn, hname⟩

/-- What can be relied on of a widget as a scheduler. -/
def sight : Scheduler.Sight (Widget Callback) String where
  waiting := waiting
  Sound := Sound
  schedule := by
    rintro w delay c _ _ _ hs ⟨⟩
    exact ⟨rfl, hs.fresh, hs.after delay c, .refl _⟩
  cancel hs hperm := ⟨hs.cancel _, filter_ne_perm Prod.fst hperm hs.nodup⟩

/-- A widget that makes the call of a routine takes it off. -/
theorem sight_make {b : PlacedRoutine (Widget Callback) String}
    (hs : Sound b.scheduler) {name : String} {c : Callback}
    (hmake : (b.scheduler.make name).1 = some c) (hown : c.routine = b.routine.serial)
    (action : Routine.Action) :
    b.Allows sight (.call (name, c) (b.scheduler.make name).2 action) := by
  unfold make at hmake ⊢
  cases hfound : b.scheduler.waiting.find? (·.1 = name) with
  | none => rw [hfound] at hmake; cases hmake
  | some q =>
    rw [hfound] at hmake
    obtain ⟨name', call⟩ := q
    cases hmake
    obtain ⟨rfl, hperm⟩ := perm_of_find? Prod.fst hfound hs.nodup
    refine ⟨hown, ⟨hs.nodup.sublist (List.filter_sublist.map _), fun q hq => ?_⟩, hperm⟩
    exact hs.named q (List.mem_filter.1 hq).1

end EquationStudio.Widget
