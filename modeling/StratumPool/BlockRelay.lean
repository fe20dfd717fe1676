import StratumPool.Server

namespace StratumPool.BlockRelay

open Lib Lib.Runs StratumPool.Text StratumPool.Json StratumPool.Kaspa StratumPool.Jobs
  StratumPool.Submit StratumPool.Server

/-- The server with the forwarder task of `start_kaspad_client`. `hand` is the
block the task has received and not yet sent, `handed` what entered the request
stream to the node, `streamOpen` whether that stream still has a reader. -/
structure State (Body : Type) where
  server : Server.State Body
  hand : Option (RpcBlock Body)
  handed : List (RpcBlock Body)
  streamOpen : Bool

def boot (Body : Type) : State Body := ⟨Server.boot Body, none, [], true⟩

inductive Action (Body : Type) where
  | server (action : Server.Action Body)
  | deliver
  | closeStream
  | stopForwarder

section Steps

variable {Body : Type} (crates : Crates) (float : Float → Str)

/-- `block_submit_rx.recv()`, which the task calls with empty hands. -/
def take (state : State Body) : State Body :=
  match state.hand, state.server.blockSubmits.queue with
  | none, block :: _ =>
      if state.server.blockSubmits.isOpen then
        { state with
          server := { state.server with blockSubmits := state.server.blockSubmits.recv }
          hand := some block }
      else state
  | _, _ => state

def step (state : State Body) : Action Body → State Body
  | .server .forwardBlock => take state
  | .server action => { state with server := Server.step crates float state.server action }
  | .deliver =>
      { state with
        hand := none
        handed := if state.streamOpen then state.handed ++ state.hand.toList else state.handed }
  | .closeStream => { state with streamOpen := false }
  | .stopForwarder =>
      { state with
        server := { state.server with blockSubmits := state.server.blockSubmits.close }
        hand := none }

def foundBy (state : State Body) : Action Body → Option (RpcBlock Body × Value Float)
  | .server action => foundBlock crates float state.server action
  | _ => none

/-- The blocks a run finds, each with the event that records it. -/
def foundOver (state : State Body) (as : List (Action Body)) :
    List (RpcBlock Body × Value Float) :=
  expand (step crates float) (fun t a => (foundBy crates float t a).toList) state as

/-- Where the blocks are that were not dropped: in the channel, with the
forwarder, or with the node. -/
def kept (state : State Body) : List (RpcBlock Body) :=
  state.server.blockSubmits.queue ++ state.hand.toList ++ state.handed

/-- A block that is found has room in the channel, one that is sent has a
reader, and the forwarder leaves none behind. -/
def KeepsBlocks (state : State Body) : Action Body → Prop
  | .server action => ∀ found, foundBlock crates float state.server action = some found →
      state.server.blockSubmits.accepts = true
  | .deliver => ∀ block, state.hand = some block → state.streamOpen = true
  | .closeStream => True
  | .stopForwarder => state.server.blockSubmits.queue = [] ∧ state.hand = none

end Steps

section Relay

variable {Body : Type} (crates : Crates) (float : Float → Str)

/-- Only a network block enters the submit channel, and nothing but the
forwarder takes from it. -/
theorem server_blocks (server : Server.State Body) (a : Server.Action Body) (ha : a ≠ .forwardBlock) :
    (Server.step crates float server a).blockSubmits =
      (foundBlock crates float server a).elim server.blockSubmits
        (fun found => server.blockSubmits.trySend found.1) := by
  have hsubmits := (step_outcome crates float server a).blockSubmits
  cases a with
  | forwardBlock => exact absurd rfl ha
  | _ => exact hsubmits

theorem foundBlock_forward (server : Server.State Body) :
    foundBlock crates float server .forwardBlock = none := rfl

theorem step_server (state : State Body) (a : Server.Action Body) (ha : a ≠ .forwardBlock) :
    step crates float state (.server a) =
      { state with server := Server.step crates float state.server a } := by
  cases a with
  | forwardBlock => exact absurd rfl ha
  | _ => rfl

/-- The task moves a block from the channel to its hand. -/
theorem take_spec (state : State Body) :
    (take state).server.blockEvents = state.server.blockEvents ∧
      (take state).server.blockSubmits.sent = state.server.blockSubmits.sent ∧
      (kept (take state)).Perm (kept state) := by
  rw [take]
  split
  · rename_i block rest hhand hqueue
    split
    · rename_i hopen
      refine ⟨rfl, Channel.sent_recv _, ?_⟩
      simp only [kept, Channel.queue_recv hqueue hopen, hhand, hqueue, Option.toList_none,
        Option.toList_some, List.append_nil]
      have hswap : (rest ++ [block]).Perm ([block] ++ rest) := List.perm_append_comm
      exact hswap.append_right _
    · exact ⟨rfl, rfl, .rfl⟩
  · exact ⟨rfl, rfl, .rfl⟩

/-- Every block found is in the channel, with the forwarder or with the node,
and every event belongs to a block that was queued for submission. -/
structure AllKept (as : List (Action Body)) : Prop where
  blocks : ((foundOver crates float (boot Body) as).map Prod.fst).Perm
    (kept (run (step crates float) (boot Body) as))
  events : (run (step crates float) (boot Body) as).server.blockEvents =
    (foundOver crates float (boot Body) as).map Prod.snd
  queued : ∀ found ∈ foundOver crates float (boot Body) as,
    found.1 ∈ (run (step crates float) (boot Body) as).server.blockSubmits.sent

/-- A block more than is kept is a block lost. -/
theorem not_perm_of_longer {α : Type} {l m k : List α} (h : l.Perm m)
    (hlen : k.length < m.length) : ¬ l.Perm k := by
  intro hp
  rw [← hp.length_eq, h.length_eq] at hlen
  exact lt_irrefl _ hlen

theorem kept_step_iff {state : State Body} {found : List (RpcBlock Body × Value Float)}
    (h : (found.map Prod.fst).Perm (kept state)) (a : Action Body) :
    ((found ++ (foundBy crates float state a).toList).map Prod.fst).Perm
        (kept (step crates float state a)) ↔
      KeepsBlocks crates float state a := by
  cases a with
  | server action =>
    by_cases ha : action = .forwardBlock
    · subst ha
      simpa [foundBy, foundBlock_forward, KeepsBlocks, step] using h.trans (take_spec state).2.2.symm
    · rw [step_server crates float state action ha, KeepsBlocks, foundBy, kept,
        server_blocks crates float state.server action ha]
      cases hf : foundBlock crates float state.server action with
      | none => simpa [kept] using h
      | some block =>
        simp only [Option.toList_some, List.map_append, List.map_cons, List.map_nil,
          Option.elim_some, Channel.queue_trySend, Option.some.injEq, forall_eq']
        cases hroom : state.server.blockSubmits.accepts with
        | true =>
          simp only [if_true, iff_true]
          apply (h.append_right [block.1]).trans
          rw [kept]
          simp only [List.append_assoc]
          apply List.Perm.append_left
          rw [← List.append_assoc]
          exact List.perm_append_comm
        | false =>
          simp only [Bool.false_eq_true, if_false, List.append_nil, iff_false]
          have hlonger := h.append_right [block.1]
          apply not_perm_of_longer hlonger
          simp [kept]
  | deliver =>
    simp only [foundBy, Option.toList_none, List.append_nil, step, KeepsBlocks, kept]
    cases hhand : state.hand with
    | none =>
      simp only [kept, hhand] at h
      simpa using h
    | some block =>
      simp only [Option.toList_some, Option.some.injEq, forall_eq']
      cases hopen : state.streamOpen with
      | true =>
        simp only [if_true, iff_true]
        apply h.trans
        simp only [kept, hhand, Option.toList_some, List.append_assoc]
        exact List.Perm.append_left _ List.perm_append_comm
      | false =>
        simp only [Bool.false_eq_true, if_false, iff_false]
        apply not_perm_of_longer h
        simp [kept, hhand]
  | closeStream =>
    simpa [foundBy, step, KeepsBlocks, kept] using h
  | stopForwarder =>
    simp only [foundBy, Option.toList_none, List.append_nil, step, KeepsBlocks]
    constructor
    · intro hp
      have hlen := h.length_eq.symm.trans hp.length_eq
      have hq : (state.server.blockSubmits.close).queue = [] := rfl
      simp only [kept, hq, List.length_append, Option.toList_none, List.length_nil] at hlen
      refine ⟨List.length_eq_zero_iff.mp (by omega), ?_⟩
      cases hhand : state.hand with
      | none => rfl
      | some block => simp [hhand] at hlen
    · rintro ⟨hq, hhand⟩
      simp only [kept, hq, hhand] at h ⊢
      exact h

theorem allKept_boot : AllKept crates float ([] : List (Action Body)) :=
  ⟨.refl _, rfl, by simp [foundOver, expand]⟩

/-- The events and the sends of one step. -/
theorem recorded_step (state : State Body) (a : Action Body)
    (hg : KeepsBlocks crates float state a) :
    (step crates float state a).server.blockEvents =
        state.server.blockEvents ++ (foundBy crates float state a).toList.map Prod.snd ∧
      (step crates float state a).server.blockSubmits.sent =
        state.server.blockSubmits.sent ++ (foundBy crates float state a).toList.map Prod.fst := by
  cases a with
  | server action =>
    by_cases ha : action = .forwardBlock
    · subst ha
      obtain ⟨hevents, hsent, _⟩ := take_spec state
      simp [step, hevents, hsent, foundBy, foundBlock_forward]
    · have hevents := (step_outcome crates float state.server action).blockEvents
      rw [step_server crates float state action ha,
        server_blocks crates float state.server action ha, hevents, foundBy]
      cases hf : foundBlock crates float state.server action with
      | none => simp
      | some found => simp [hg found hf]
  | deliver => simp [step, foundBy]
  | closeStream => simp [step, foundBy]
  | stopForwarder => simp [step, foundBy]

/-- No block that is found is dropped in a run if and only if each of them
finds room in the open channel, the forwarder sends none into a stream that is
gone, and it leaves none behind. -/
theorem blocks_kept_iff (as : List (Action Body)) :
    (∀ pre, pre <+: as → AllKept crates float pre) ↔
      Guarded (step crates float) (KeepsBlocks crates float) (boot Body) as := by
  apply prefix_iff_guarded (allKept_boot crates float)
  intro pre a _ h
  have hconcat : foundOver crates float (boot Body) (pre ++ [a]) =
      foundOver crates float (boot Body) pre ++
        (foundBy crates float (run (step crates float) (boot Body) pre) a).toList :=
    expand_concat _ (boot Body) pre a
  constructor
  · intro hnext
    have hblocks := hnext.blocks
    rw [hconcat, run_concat] at hblocks
    exact (kept_step_iff crates float h.blocks a).mp hblocks
  · intro hg
    obtain ⟨hevents, hsent⟩ := recorded_step crates float _ a hg
    constructor
    · rw [hconcat, run_concat]
      exact (kept_step_iff crates float h.blocks a).mpr hg
    · rw [hconcat, run_concat, hevents, List.map_append, h.events]
    · intro found hf
      rw [hconcat] at hf
      rw [run_concat, hsent]
      obtain hf | hf := List.mem_append.mp hf
      · exact List.mem_append_left _ (h.queued found hf)
      · exact List.mem_append_right _ (List.mem_map_of_mem hf)

end Relay

section Examples

/-- Crates under which every nonce wins. -/
def luckyCrates : Crates := { tameCrates with checkPow := fun _ _ => (true, 0) }

/-- One block more than the channel holds, while the forwarder waits for the
node. -/
def crowdedRun : List (Action Unit) :=
  [.server (.jobs (.newBlock template)), .server (.jobs (.advance 0)), .server (.connect 1 1)] ++
    List.replicate 101 (.server (.submit 0 (shareParams (lit "7"))))

theorem block_dropped :
    ¬ ∀ crates : Crates, ∀ float : Float → Str, ∀ as : List (Action Unit),
      AllKept crates float as := by
  intro h
  have hlen := (h luckyCrates (fun _ => []) crowdedRun).blocks.length_eq
  have hfound : (foundOver luckyCrates (fun _ => []) (boot Unit) crowdedRun).length = 101 := by
    decide +kernel
  have hkept : (kept (run (step luckyCrates (fun _ => [])) (boot Unit) crowdedRun)).length = 100 := by
    decide +kernel
  rw [List.length_map, hfound, hkept] at hlen
  omega

end Examples

end StratumPool.BlockRelay
