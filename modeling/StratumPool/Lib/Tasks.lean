import StratumPool.Lib.Runs
import Mathlib.Algebra.BigOperators.Group.List.Basic
import Mathlib.Tactic.Abel

namespace Lib.Tasks

open Lib.Runs

/-- Tasks that take turns over one world. They are never removed, so the index
of a task is its name. -/
structure State (W T : Type) where
  world : W
  tasks : List T

/-- A new task starts, the one at an index moves, or the world changes without
any of them. -/
inductive Action (N M E : Type) where
  | spawn (request : N)
  | move (index : Nat) (what : M)
  | env (event : E)

/-- What tasks and world do in a turn of each kind. -/
structure System (W T N M E : Type) where
  start : W → N → T
  move : W → T → M → T × W
  env : W → E → W

variable {W T N M E : Type}

def step (sys : System W T N M E) (state : State W T) : Action N M E → State W T
  | .spawn request => { state with tasks := state.tasks ++ [sys.start state.world request] }
  | .move index what =>
      match state.tasks[index]? with
      | none => state
      | some task =>
          let (next, world) := sys.move state.world task what
          ⟨world, state.tasks.set index next⟩
  | .env event => { state with world := sys.env state.world event }

variable (sys : System W T N M E)

theorem step_move {state : State W T} {index : Nat} {task : T}
    (h : state.tasks[index]? = some task) (what : M) :
    step sys state (.move index what) =
      ⟨(sys.move state.world task what).2,
        state.tasks.set index (sys.move state.world task what).1⟩ := by
  simp [step, h]

theorem step_move_none {state : State W T} {index : Nat} (h : state.tasks[index]? = none)
    (what : M) : step sys state (.move index what) = state := by
  simp [step, h]

theorem step_move_last (world : W) (tasks : List T) (task : T) (what : M) :
    step sys ⟨world, tasks ++ [task]⟩ (.move tasks.length what) =
      ⟨(sys.move world task what).2, tasks ++ [(sys.move world task what).1]⟩ := by
  have hlast : (tasks ++ [task])[tasks.length]? = some task := by simp
  rw [step_move sys hlast]
  simp

section Rely

/-- A property of a task and the world that its own moves keep and no turn of
anything else disturbs. -/
structure Relies (P : W → T → Prop) : Prop where
  start : ∀ world request, P world (sys.start world request)
  move : ∀ world task what, P world task →
    P (sys.move world task what).2 (sys.move world task what).1
  other : ∀ world task mover what, P world task → P world mover →
    P (sys.move world mover what).2 task
  env : ∀ world task event, P world task → P (sys.env world event) task

def Each (P : W → T → Prop) (state : State W T) : Prop :=
  ∀ task ∈ state.tasks, P state.world task

/-- A property of two tasks that no turn of either, or of anything else,
disturbs. It may rely on what each of them keeps. -/
structure KeepsApart (P : W → T → Prop) (Q : W → T → T → Prop) : Prop where
  symm : ∀ world task other, Q world task other → Q world other task
  start : ∀ world request other, P world other → Q world (sys.start world request) other
  move : ∀ world task what other, P world task → P world other → Q world task other →
    Q (sys.move world task what).2 (sys.move world task what).1 other
  other : ∀ world task other mover what, P world mover → Q world task other →
    Q (sys.move world mover what).2 task other
  env : ∀ world task other event, Q world task other → Q (sys.env world event) task other

def Apart (Q : W → T → T → Prop) (state : State W T) : Prop :=
  ∀ (i j : Nat) task other, i ≠ j → state.tasks[i]? = some task → state.tasks[j]? = some other →
    Q state.world task other

variable {sys} {P : W → T → Prop} {Q : W → T → T → Prop}

theorem Relies.step (hp : Relies sys P) {state : State W T} (h : Each P state)
    (a : Action N M E) : Each P (step sys state a) := by
  cases a with
  | spawn request =>
    refine List.forall_mem_append.mpr ⟨h, ?_⟩
    intro task hmem
    rw [List.mem_singleton.mp hmem]
    exact hp.start state.world request
  | move index what =>
    cases htask : state.tasks[index]? with
    | none =>
      rw [step_move_none sys htask]
      exact h
    | some mover =>
      rw [step_move sys htask]
      have hmover := h mover (List.mem_of_getElem? htask)
      intro task hmem
      obtain hold | rfl := List.mem_or_eq_of_mem_set hmem
      · exact hp.other _ _ _ _ (h task hold) hmover
      · exact hp.move _ _ _ hmover
  | env event => exact fun task hmem => hp.env _ _ _ (h task hmem)

theorem Relies.always (hp : Relies sys P) (world : W) (as : List (Action N M E)) :
    Always (Tasks.step sys) (Each P) ⟨world, []⟩ as :=
  always_of_invariant (by simp [Each]) (fun _ a h => hp.step h a) as

theorem KeepsApart.step (hq : KeepsApart sys P Q) {state : State W T} (hp : Each P state)
    (h : Apart Q state) (a : Action N M E) : Apart Q (step sys state a) := by
  intro i j task other hij hi hj
  cases a with
  | spawn request =>
    have hlast : ∀ {k : Nat} {t : T},
        (state.tasks ++ [sys.start state.world request])[k]? = some t →
          state.tasks[k]? = some t ∨
            k = state.tasks.length ∧ t = sys.start state.world request := by
      intro k t hk
      obtain hlt | hge := Nat.lt_or_ge k state.tasks.length
      · rw [List.getElem?_append_left hlt] at hk
        exact .inl hk
      · rw [List.getElem?_append_right hge, List.getElem?_singleton] at hk
        split at hk
        · cases hk
          exact .inr ⟨by omega, rfl⟩
        · cases hk
    obtain hi | ⟨hilast, rfl⟩ := hlast hi <;> obtain hj | ⟨hjlast, rfl⟩ := hlast hj
    · exact h i j _ _ hij hi hj
    · exact hq.symm _ _ _ (hq.start _ _ _ (hp task (List.mem_of_getElem? hi)))
    · exact hq.start _ _ _ (hp other (List.mem_of_getElem? hj))
    · exact absurd (hilast.trans hjlast.symm) hij
  | move index what =>
    cases htask : state.tasks[index]? with
    | none =>
      rw [step_move_none sys htask] at hi hj ⊢
      exact h i j _ _ hij hi hj
    | some mover =>
      rw [step_move sys htask] at hi hj ⊢
      have hmover := hp mover (List.mem_of_getElem? htask)
      have hmoved : ∀ {k : Nat} {t : T}, k = index →
          (state.tasks.set index (sys.move state.world mover what).1)[k]? = some t →
            t = (sys.move state.world mover what).1 := by
        rintro k t rfl hk
        obtain ⟨hlt, -⟩ := List.getElem?_eq_some_iff.mp htask
        rw [List.getElem?_set_self hlt] at hk
        exact (Option.some.inj hk).symm
      by_cases hi' : i = index
      · rw [hmoved hi' hi]
        have hj' : index ≠ j := fun he => hij (hi'.trans he)
        rw [List.getElem?_set_ne hj'] at hj
        exact hq.move _ _ _ _ hmover (hp other (List.mem_of_getElem? hj)) (h _ _ _ _ hj' htask hj)
      · rw [List.getElem?_set_ne (Ne.symm hi')] at hi
        by_cases hj' : j = index
        · rw [hmoved hj' hj]
          refine hq.symm _ _ _ ?_
          have hpair := h index i mover task (Ne.symm hi') htask hi
          exact hq.move _ _ _ _ hmover (hp task (List.mem_of_getElem? hi)) hpair
        · rw [List.getElem?_set_ne (Ne.symm hj')] at hj
          exact hq.other _ _ _ _ _ hmover (h i j _ _ hij hi hj)
  | env event => exact hq.env _ _ _ _ (h i j _ _ hij hi hj)

theorem KeepsApart.always (hp : Relies sys P) (hq : KeepsApart sys P Q) (world : W)
    (as : List (Action N M E)) : Always (Tasks.step sys) (Apart Q) ⟨world, []⟩ as := by
  have hboth : Always (Tasks.step sys) (fun state => Each P state ∧ Apart Q state)
      ⟨world, []⟩ as := by
    refine always_of_invariant ⟨by simp [Each], by simp [Apart]⟩ ?_ as
    intro state a h
    exact ⟨hp.step h.1 a, hq.step h.1 h.2 a⟩
  exact always_mono (fun _ h => h.2) hboth

end Rely

section Accounts

variable {R : Type} [AddCommGroup R]

/-- A quantity of the world that grows by what the tasks have put into it and by
what came from outside. -/
structure Accounts (P : W → T → Prop) (value : W → R) (share : T → R) (gain : E → R) : Prop where
  start : ∀ world request, share (sys.start world request) = 0
  move : ∀ world task what, P world task → value (sys.move world task what).2 + share task =
    value world + share (sys.move world task what).1
  env : ∀ world event, value (sys.env world event) = value world + gain event

def gainOf (gain : E → R) : Action N M E → R
  | .env event => gain event
  | _ => 0

theorem sum_set {l : List R} {index : Nat} {x : R} (h : l[index]? = some x) (y : R) :
    (l.set index y).sum + x = l.sum + y := by
  induction l generalizing index with
  | nil => cases h
  | cons z l ih =>
    cases index with
    | zero =>
      cases h
      rw [List.set_cons_zero, List.sum_cons, List.sum_cons]
      abel
    | succ index =>
      rw [List.set_cons_succ, List.sum_cons, List.sum_cons, add_assoc, ih h, add_assoc]

variable {sys} {P : W → T → Prop} {value : W → R} {share : T → R} {gain : E → R}

theorem Accounts.step (ha : Accounts sys P value share gain) {state : State W T}
    (hp : Each P state) (a : Action N M E) :
    value (step sys state a).world + (state.tasks.map share).sum =
      value state.world + gainOf gain a + ((step sys state a).tasks.map share).sum := by
  cases a with
  | spawn request => simp [Tasks.step, gainOf, ha.start]
  | move index what =>
    simp only [gainOf, add_zero]
    cases htask : state.tasks[index]? with
    | none => rw [step_move_none sys htask]
    | some task =>
      have hshare : (state.tasks.map share)[index]? = some (share task) := by
        rw [List.getElem?_map, htask]
        rfl
      have hsum := sum_set hshare (share (sys.move state.world task what).1)
      have hmove := ha.move state.world task what (hp task (List.mem_of_getElem? htask))
      rw [step_move sys htask, List.map_set]
      apply add_right_cancel (b := share task)
      calc
        _ = value (sys.move state.world task what).2 + share task +
            (state.tasks.map share).sum := by abel
        _ = value state.world + ((state.tasks.map share).sum +
            share (sys.move state.world task what).1) := by
          rw [hmove]
          abel
        _ = _ := by
          rw [← hsum]
          abel
  | env event => simp only [Tasks.step, gainOf, ha.env]

/-- What the world holds at the end of a run is what it held, what came in and
what the tasks put there. -/
theorem Accounts.run (hp : Relies sys P) (ha : Accounts sys P value share gain) (world : W)
    (as : List (Action N M E)) :
    value (run (Tasks.step sys) ⟨world, []⟩ as).world =
      value world + (as.map (gainOf gain)).sum +
        ((run (Tasks.step sys) ⟨world, []⟩ as).tasks.map share).sum := by
  induction as using List.reverseRecOn with
  | nil => simp
  | append_singleton as a ih =>
    have hstep := ha.step (hp.always world as).last a
    rw [run_concat, List.map_append, List.sum_append, List.map_singleton, List.sum_singleton]
    apply add_right_cancel (b := ((Runs.run (Tasks.step sys) ⟨world, []⟩ as).tasks.map share).sum)
    rw [hstep, ih]
    abel

end Accounts

end Lib.Tasks
