import Mathlib.Data.List.Basic
import Mathlib.Data.List.Infix

namespace Lib.Runs

variable {S A : Type}

def run (step : S → A → S) (s : S) (as : List A) : S := as.foldl step s

/-- `P` holds in every state the run passes through, the first one and the
last one included. -/
def Always (step : S → A → S) (P : S → Prop) (s : S) (as : List A) : Prop :=
  ∀ pre, pre <+: as → P (run step s pre)

/-- Every step of the run meets the condition `G`, which sees the state the
step is taken in and the step itself. -/
def Guarded (step : S → A → S) (G : S → A → Prop) (s : S) (as : List A) : Prop :=
  ∀ pre a, pre ++ [a] <+: as → G (run step s pre) a

variable {step : S → A → S}

@[simp] theorem run_nil (s : S) : run step s [] = s := rfl

@[simp] theorem run_cons (s : S) (a : A) (as : List A) :
    run step s (a :: as) = run step (step s a) as := rfl

@[simp] theorem run_append (s : S) (as bs : List A) :
    run step s (as ++ bs) = run step (run step s as) bs := List.foldl_append

theorem run_concat (s : S) (as : List A) (a : A) :
    run step s (as ++ [a]) = step (run step s as) a := by
  rw [run_append, run_cons, run_nil]

theorem prefix_of_concat {pre as : List A} {a : A} (h : pre ++ [a] <+: as) : pre <+: as :=
  (List.prefix_append pre [a]).trans h

@[simp] theorem guarded_nil (G : S → A → Prop) (s : S) : Guarded step G s [] := by
  intro pre a h
  simp at h

@[simp] theorem guarded_cons (G : S → A → Prop) (s : S) (a : A) (as : List A) :
    Guarded step G s (a :: as) ↔ G s a ∧ Guarded step G (step s a) as := by
  constructor
  · intro h
    refine ⟨h [] a (by simp), ?_⟩
    intro pre b hp
    exact h (a :: pre) b (by simpa using hp)
  · rintro ⟨ha, has⟩ pre b hp
    cases pre with
    | nil =>
      have hb : b = a := by simpa using hp
      rwa [hb]
    | cons c pre =>
      obtain ⟨rfl, hrest⟩ := List.cons_prefix_cons.mp hp
      exact has pre b hrest

theorem guarded_append (G : S → A → Prop) (s : S) (as bs : List A) :
    Guarded step G s (as ++ bs) ↔ Guarded step G s as ∧ Guarded step G (run step s as) bs := by
  induction as generalizing s with
  | nil => simp
  | cons a as ih => rw [List.cons_append, guarded_cons, guarded_cons, run_cons, ih, and_assoc]

theorem guarded_of_forall {G : S → A → Prop} {s : S} {as : List A} (h : ∀ t, ∀ a ∈ as, G t a) :
    Guarded step G s as :=
  fun _ a hp => h _ a (hp.subset (by simp))

theorem guarded_congr {I : S → Prop} {G H : S → A → Prop} {s : S} {as : List A}
    (hi : Always step I s as) (h : ∀ t a, I t → (G t a ↔ H t a)) :
    Guarded step G s as ↔ Guarded step H s as := by
  refine forall_congr' fun pre => forall_congr' fun a => forall_congr' fun hp => ?_
  exact h _ a (hi pre (prefix_of_concat hp))

/-- A property of the steps taken so far holds at every point of a run as soon
as it holds at the start and each step of the run hands it on. -/
theorem prefix_induction {as : List A} {Q : List A → Prop} (h0 : Q [])
    (hs : ∀ pre a, pre ++ [a] <+: as → Q pre → Q (pre ++ [a])) :
    ∀ pre, pre <+: as → Q pre := by
  intro pre
  induction pre using List.reverseRecOn with
  | nil => exact fun _ => h0
  | append_singleton pre a ih => exact fun h => hs pre a h (ih (prefix_of_concat h))

theorem Always.here {P : S → Prop} {s : S} {as : List A} (h : Always step P s as) : P s :=
  h [] as.nil_prefix

theorem Always.last {P : S → Prop} {s : S} {as : List A} (h : Always step P s as) :
    P (run step s as) := h as List.prefix_rfl

theorem always_mono {P Q : S → Prop} {s : S} {as : List A}
    (hpq : ∀ t, P t → Q t) (h : Always step P s as) : Always step Q s as :=
  fun pre hp => hpq _ (h pre hp)

theorem always_of_invariant {I : S → Prop} {s : S} (h0 : I s)
    (hstep : ∀ t a, I t → I (step t a)) (as : List A) : Always step I s as := by
  refine prefix_induction h0 ?_
  intro pre a _ hi
  rw [run_concat]
  exact hstep _ _ hi

/-- An invariant that each step keeps where the step meets the guard. -/
theorem Guarded.always {I : S → Prop} {G : S → A → Prop} {s : S} {as : List A}
    (hg : Guarded step G s as) (h0 : I s) (hstep : ∀ t a, I t → G t a → I (step t a)) :
    Always step I s as := by
  refine prefix_induction h0 ?_
  intro pre a hp hi
  rw [run_concat]
  exact hstep _ _ hi (hg pre a hp)

/-- Where a guard says exactly which steps hand `Q` on, `Q` holds of all the
beginnings of a run if and only if every step of it meets the guard. -/
theorem prefix_iff_guarded {Q : List A → Prop} {G : S → A → Prop} {s : S} {as : List A} (h0 : Q [])
    (hs : ∀ pre a, pre ++ [a] <+: as → Q pre → (Q (pre ++ [a]) ↔ G (run step s pre) a)) :
    (∀ pre, pre <+: as → Q pre) ↔ Guarded step G s as := by
  constructor
  · intro hq pre a h
    exact (hs pre a h (hq pre (prefix_of_concat h))).mp (hq _ h)
  · intro hg
    exact prefix_induction h0 (fun pre a h hq => (hs pre a h hq).mpr (hg pre a h))

/-- The same for a property of states. The invariant `I` is what the guard may
rely on. -/
theorem always_iff_guarded {I P : S → Prop} {G : S → A → Prop} {s : S} {as : List A}
    (hi : Always step I s as) (h0 : P s)
    (hstep : ∀ t a, I t → P t → (P (step t a) ↔ G t a)) :
    Always step P s as ↔ Guarded step G s as := by
  apply prefix_iff_guarded h0
  intro pre a h hp
  rw [run_concat]
  exact hstep _ _ (hi pre (prefix_of_concat h)) hp

section Yield

variable {B : Type}

/-- The lists that the steps of a run give, one after the other. -/
def expand (step : S → A → S) (acts : S → A → List B) (s : S) : List A → List B
  | [] => []
  | a :: as => acts s a ++ expand step acts (step s a) as

theorem expand_concat (acts : S → A → List B) (s : S) (as : List A) (a : A) :
    expand step acts s (as ++ [a]) = expand step acts s as ++ acts (run step s as) a := by
  induction as generalizing s with
  | nil => simp [expand]
  | cons b as ih => rw [List.cons_append, expand, ih, expand, run_cons, List.append_assoc]

theorem expand_append (acts : S → A → List B) (s : S) (as bs : List A) :
    expand step acts s (as ++ bs) = expand step acts s as ++ expand step acts (run step s as) bs := by
  induction as generalizing s with
  | nil => rfl
  | cons a as ih => rw [List.cons_append, expand, ih, expand, run_cons, List.append_assoc]

/-- What every step yields, the whole run yields. -/
theorem forall_expand {P : B → Prop} {acts : S → A → List B}
    (h : ∀ t a, ∀ b ∈ acts t a, P b) (s : S) (as : List A) :
    ∀ b ∈ expand step acts s as, P b := by
  induction as generalizing s with
  | nil => simp [expand]
  | cons a as ih => exact List.forall_mem_append.mpr ⟨h s a, ih (step s a)⟩

theorem expand_flatMap (f : A → List B) (s : S) (as : List A) :
    expand step (fun _ a => f a) s as = as.flatMap f := by
  induction as generalizing s with
  | nil => rfl
  | cons a as ih => rw [expand, ih, List.flatMap_cons]

end Yield

section Projection

variable {T B : Type}

/-- Seen through `proj`, every step of the one system is one step of the other
or none at all. -/
def Refines (step : S → A → S) (step' : T → B → T) (proj : S → T) (act : S → A → Option B) :
    Prop :=
  ∀ s a, proj (step s a) = (act s a).elim (proj s) (step' (proj s))

variable {step' : T → B → T} {proj : S → T} {act : S → A → Option B}

theorem Refines.step_invariant (hr : Refines step step' proj act) {I : T → Prop}
    (hstep : ∀ t b, I t → I (step' t b)) (s : S) (a : A) (hi : I (proj s)) :
    I (proj (step s a)) := by
  rw [hr s a]
  cases act s a with
  | none => exact hi
  | some b => exact hstep _ b hi

theorem Refines.always (hr : Refines step step' proj act) {I : T → Prop} {s : S}
    (h0 : I (proj s)) (hstep : ∀ t b, I t → I (step' t b)) (as : List A) :
    Always step (fun t => I (proj t)) s as :=
  always_of_invariant (I := fun t => I (proj t)) h0 (hr.step_invariant hstep) as

/-- Seen through `proj`, every step of the one system is a run of the other. -/
def Expands (step : S → A → S) (step' : T → B → T) (proj : S → T) (acts : S → A → List B) : Prop :=
  ∀ s a, proj (step s a) = run step' (proj s) (acts s a)

variable {acts : S → A → List B}

theorem Expands.run_eq (h : Expands step step' proj acts) (s : S) (as : List A) :
    proj (run step s as) = run step' (proj s) (expand step acts s as) := by
  induction as generalizing s with
  | nil => rfl
  | cons a as ih => rw [run_cons, ih, h, expand, run_append]

theorem Expands.guarded (h : Expands step step' proj acts) {G : T → B → Prop} {s : S} {as : List A}
    (hg : Guarded step (fun t a => Guarded step' G (proj t) (acts t a)) s as) :
    Guarded step' G (proj s) (expand step acts s as) := by
  induction as generalizing s with
  | nil => exact guarded_nil G (proj s)
  | cons a as ih =>
    obtain ⟨hfirst, hrest⟩ := (guarded_cons _ s a as).mp hg
    rw [expand, guarded_append, ← h]
    exact ⟨hfirst, ih hrest⟩

end Projection

end Lib.Runs
