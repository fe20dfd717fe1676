import StratumPool.Lib.HandOff
import Mathlib.Algebra.Order.Group.Multiset

namespace Lib.HandOff

open Lib.Runs

variable {α : Type} [DecidableEq α]

/-- What the consumer holds and the list holds no more. -/
def loose (h : HandOff α) : List (Nat × α) := h.hand.filter (fun e => e ∉ h.buffer)

/-- What a step loses: it was removed from the list and did not take effect. -/
def spilled (h : HandOff α) : Act α → List (Nat × α)
  | .settle took => if h.stage = .trimmed then h.loose.filter (fun e => !took e) else []
  | _ => []

/-- What takes effect in a step and stays in the list, to take effect again. -/
def recurring (h : HandOff α) : Act α → List (Nat × α)
  | .settle took =>
      if h.stage = .trimmed then (h.hand.filter took).filter (fun e => e ∈ h.buffer) else []
  | _ => []

section Weights

variable {M : Type} [AddCommMonoid M] (φ : α → M)

/-- What the elements of a list come to. -/
def weigh (l : List (Nat × α)) : M := (l.map (fun e => φ e.2)).sum

omit [DecidableEq α] in
@[simp] theorem weigh_nil : weigh φ [] = 0 := rfl

omit [DecidableEq α] in
@[simp] theorem weigh_append (l k : List (Nat × α)) :
    weigh φ (l ++ k) = weigh φ l + weigh φ k := by
  simp [weigh]

omit [DecidableEq α] in
theorem weigh_filter (p : Nat × α → Bool) (l : List (Nat × α)) :
    weigh φ (l.filter p) + weigh φ (l.filter (fun e => !p e)) = weigh φ l := by
  rw [← weigh_append]
  exact ((List.filter_append_perm p l).map _).sum_eq

/-- Of what is in hand the list has the rest. -/
theorem weigh_loose (h : HandOff α) (took : Nat × α → Bool) :
    weigh φ ((h.hand.filter took).filter (fun e => e ∈ h.buffer)) +
        weigh φ (h.loose.filter took) = weigh φ (h.hand.filter took) := by
  rw [← weigh_filter φ (fun e => decide (e ∈ h.buffer)) (h.hand.filter took), loose,
    List.filter_filter, List.filter_filter, List.filter_filter]
  congr 3
  funext e
  rw [Bool.and_comm, decide_not]

theorem loose_eq_nil {h : HandOff α} (hp : h.hand <+: h.buffer) : h.loose = [] := by
  apply List.filter_eq_nil_iff.mpr
  intro e he
  simpa using hp.subset he

theorem loose_push {h : HandOff α} (hi : Inv h) (x : α) : (h.push x).loose = h.loose := by
  rw [loose, loose]
  apply List.filter_congr
  intro e he
  have hfresh : e ≠ (h.pushed.length, x) := by
    rintro rfl
    exact hi.next_fresh x (hi.hand_pushed _ he)
  simp [push, hfresh]

theorem loose_read (h : HandOff α) (limit : Nat) (ok : Bool)
    (hhand : h.stage = .idle → h.hand = []) : (h.read limit ok).loose = h.loose := by
  rw [read]
  split
  · rename_i hread
    have hnone : h.loose = [] := by
      rw [loose, hhand hread.2.1]
      rfl
    rw [hnone]
    apply loose_eq_nil
    exact List.take_prefix _ _
  · rfl

/-- A removal moves what is in hand from the list to the hand. -/
theorem weigh_trim {h : HandOff α} (hi : Inv h) (ok : Bool) :
    weigh φ (h.trim ok).buffer + weigh φ (h.trim ok).loose =
      weigh φ h.buffer + weigh φ h.loose := by
  rw [trim]
  split
  · rename_i hs
    have hp : h.hand <+: h.buffer := by simpa only [Held, hs] using hi.held
    cases ok with
    | false => rfl
    | true =>
      have hnd : (h.hand ++ h.buffer.drop h.hand.length).Nodup := by
        rw [← hand_append_drop hp]
        exact hi.queued.sublist.nodup hi.nodup
      have hall : h.hand.filter (fun e => e ∉ h.buffer.drop h.hand.length) = h.hand := by
        apply List.filter_eq_self.mpr
        intro e he
        have hgone : e ∉ h.buffer.drop h.hand.length :=
          fun hm => (List.nodup_append.mp hnd).2.2 e he e hm rfl
        simpa using hgone
      calc weigh φ (h.buffer.drop h.hand.length) +
            weigh φ (h.hand.filter (fun e => e ∉ h.buffer.drop h.hand.length))
          = weigh φ h.hand + weigh φ (h.buffer.drop h.hand.length) := by rw [hall, add_comm]
        _ = weigh φ h.buffer := by rw [← weigh_append, ← hand_append_drop hp]
        _ = weigh φ h.buffer + weigh φ h.loose := by
          rw [loose_eq_nil hp, weigh_nil, add_zero]
  · rfl

/-- What has come in took effect, is in the list, is held or was lost; what
takes effect and stays in the list counts twice. -/
theorem books_step {h : HandOff α} (hi : Inv h) (a : Act α) :
    weigh φ (step h a).applied + weigh φ (step h a).buffer + weigh φ (step h a).loose +
        weigh φ (spilled h a) =
      weigh φ h.applied + weigh φ h.buffer + weigh φ h.loose + weigh φ (recurring h a) +
        (a.pushes.map φ).sum := by
  cases a with
  | push x =>
    have hbuffer : (h.push x).buffer = h.buffer ++ [(h.pushed.length, x)] := rfl
    have happlied : (h.push x).applied = h.applied := rfl
    simp only [step, loose_push hi, hbuffer, happlied, spilled, recurring, Act.pushes]
    simp [weigh, add_assoc, add_comm, add_left_comm]
  | read limit ok =>
    have hhand : h.stage = .idle → h.hand = [] := by
      intro hs
      simpa only [Held, hs] using hi.held
    have hrest : (h.read limit ok).buffer = h.buffer ∧ (h.read limit ok).applied = h.applied := by
      rw [read]
      split <;> exact ⟨rfl, rfl⟩
    simp only [step, loose_read h limit ok hhand, hrest, spilled, recurring, Act.pushes]
    simp
  | trim ok =>
    have happlied : (h.trim ok).applied = h.applied := by
      rw [trim]
      split <;> rfl
    simp only [step, spilled, recurring, Act.pushes, happlied, add_assoc, weigh_trim φ hi ok]
    simp
  | settle took =>
    by_cases hs : h.stage = .trimmed
    · have hloose : (h.settle took).loose = [] := by simp [settle, hs, loose]
      have hbuffer : (h.settle took).buffer = h.buffer := by simp [settle, hs]
      simp only [step, hloose, hbuffer, applied_settle hs, spilled, recurring, hs, if_true,
        Act.pushes, weigh_append, weigh_nil, ← weigh_loose φ h took,
        ← weigh_filter φ took h.loose]
      simp [add_assoc, add_comm, add_left_comm]
    · simp [step, settle, hs, spilled, recurring, Act.pushes]

/-- The books of what has come in, with all that was lost and all that came
again. -/
def Balanced (h : HandOff α) (spilt again : List (Nat × α)) : Prop :=
  weigh φ h.applied + weigh φ h.buffer + weigh φ h.loose + weigh φ spilt =
    weigh φ h.pushed + weigh φ again

theorem balanced_empty : Balanced φ (empty α) [] [] := by
  simp [Balanced, empty, loose]

omit [DecidableEq α] in
theorem weigh_pushed (h : HandOff α) (a : Act α) :
    weigh φ (step h a).pushed = weigh φ h.pushed + (a.pushes.map φ).sum := by
  have hsnd : ∀ l : List (Nat × α), weigh φ l = ((l.map Prod.snd).map φ).sum := by
    intro l
    rw [weigh, List.map_map]
    rfl
  rw [hsnd, hsnd, pushed_step, List.map_append, List.sum_append]

theorem Balanced.step {h : HandOff α} {spilt again : List (Nat × α)} (hb : Balanced φ h spilt again)
    (hi : Inv h) (a : Act α) :
    Balanced φ (step h a) (spilt ++ spilled h a) (again ++ recurring h a) := by
  have hstep := books_step φ hi a
  rw [Balanced, weigh_append, weigh_append, weigh_pushed]
  calc weigh φ (HandOff.step h a).applied + weigh φ (HandOff.step h a).buffer +
        weigh φ (HandOff.step h a).loose + (weigh φ spilt + weigh φ (spilled h a))
      = (weigh φ (HandOff.step h a).applied + weigh φ (HandOff.step h a).buffer +
          weigh φ (HandOff.step h a).loose + weigh φ (spilled h a)) + weigh φ spilt := by
        rw [add_comm (weigh φ spilt), ← add_assoc]
    _ = (weigh φ h.applied + weigh φ h.buffer + weigh φ h.loose + weigh φ spilt) +
          (weigh φ (recurring h a) + (a.pushes.map φ).sum) := by
        rw [hstep]
        simp [add_assoc, add_comm]
    _ = weigh φ h.pushed + (a.pushes.map φ).sum + (weigh φ again + weigh φ (recurring h a)) := by
        rw [hb]
        simp [add_assoc, add_comm, add_left_comm]

section Runs

variable {S A : Type} {sysStep : S → A → S} {proj : S → HandOff α} {act : S → A → Option (Act α)}

/-- All that a run loses. -/
def spilledOver (sysStep : S → A → S) (proj : S → HandOff α) (act : S → A → Option (Act α)) (s : S)
    (as : List A) : List (Nat × α) :=
  expand sysStep (fun t a => (act t a).elim [] (spilled (proj t))) s as

/-- All that comes again in a run after it took effect. -/
def recurringOver (sysStep : S → A → S) (proj : S → HandOff α) (act : S → A → Option (Act α))
    (s : S) (as : List A) : List (Nat × α) :=
  expand sysStep (fun t a => (act t a).elim [] (recurring (proj t))) s as

theorem balanced_run (hr : Refines sysStep HandOff.step proj act) {s : S} (h0 : proj s = empty α)
    (as : List A) :
    Balanced φ (proj (run sysStep s as)) (spilledOver sysStep proj act s as)
      (recurringOver sysStep proj act s as) := by
  induction as using List.reverseRecOn with
  | nil =>
    rw [run_nil, h0]
    exact balanced_empty φ
  | append_singleton pre a ih =>
    have hinv : Inv (proj (run sysStep s pre)) := (always_inv hr h0 pre).last
    rw [run_concat, hr, spilledOver, recurringOver, expand_concat, expand_concat]
    cases act (run sysStep s pre) a with
    | none =>
      rw [Option.elim_none, Option.elim_none, Option.elim_none, List.append_nil, List.append_nil]
      exact ih
    | some b => exact ih.step φ hinv b

end Runs

end Weights

section Elements

omit [DecidableEq α] in
theorem weigh_singleton (l : List (Nat × α)) :
    weigh (fun x => ({x} : Multiset α)) l = (l.map Prod.snd : Multiset α) := by
  induction l with
  | nil => rfl
  | cons e l ih =>
    rw [weigh, List.map_cons, List.sum_cons, ← weigh, ih]
    rfl

/-- What has come in is in one of the four places. -/
theorem Balanced.place {h : HandOff α} {spilt again : List (Nat × α)}
    (hb : Balanced (fun x => ({x} : Multiset α)) h spilt again) {x : α}
    (hx : x ∈ h.pushed.map Prod.snd) :
    x ∈ h.applied.map Prod.snd ∨ x ∈ h.buffer.map Prod.snd ∨ x ∈ h.loose.map Prod.snd ∨
      x ∈ spilt.map Prod.snd := by
  have hmem : x ∈ weigh (fun x => ({x} : Multiset α)) h.pushed +
      weigh (fun x => ({x} : Multiset α)) again := by
    rw [weigh_singleton]
    exact Multiset.mem_add.mpr (.inl hx)
  rw [← hb] at hmem
  simp only [weigh_singleton, Multiset.mem_add, Multiset.mem_coe] at hmem
  tauto

end Elements

end Lib.HandOff
