import StratumPool.Server

namespace StratumPool.Acceptance

open Lib Lib.Runs StratumPool.Text StratumPool.Json StratumPool.Kaspa StratumPool.Jobs
  StratumPool.Submit StratumPool.Server

variable {Body : Type} (crates : Crates) (float : Float → Str)

/-- The messages of the shares that a run counts as accepted. -/
def acceptedOver (state : State Body) (as : List (Server.Action Body)) : List (Str × Float) :=
  expand (Server.step crates float) (fun t a => (acceptedShare crates float t a).toList) state as

/-- An accepted share finds room in the accounting channel, and the engine
leaves nothing behind in it. -/
def KeepsShares (state : State Body) (a : Server.Action Body) : Prop :=
  (∀ m, acceptedShare crates float state a = some m → state.validShares.accepts = true) ∧
    (a = .closeShares → state.validShares.queue = [])

/-- The one step that hands shares on: a message is kept if and only if there
is room for it, and the end of the engine costs what is queued. -/
theorem kept_step_iff {state : State Body} {accepted : List (Str × Float)}
    (h : accepted.Perm state.validShares.kept) (a : Server.Action Body) :
    (accepted ++ (acceptedShare crates float state a).toList).Perm
        (Server.step crates float state a).validShares.kept ↔
      KeepsShares crates float state a := by
  have hchannel := (step_outcome crates float state a).validShares
  have hsend (sent : Option (Str × Float)) :
      (accepted ++ sent.toList).Perm
          (sent.elim state.validShares state.validShares.trySend).kept ↔
        ∀ m, sent = some m → state.validShares.accepts = true := by
    cases sent with
    | none => simpa using h
    | some m => simpa using Channel.perm_trySend_iff h m
  cases a with
  | closeShares =>
    rw [hchannel]
    simpa [KeepsShares, acceptedShare, verdictOf] using Channel.perm_close_iff h
  | receiveShare =>
    rw [hchannel]
    simpa [KeepsShares, acceptedShare, verdictOf] using h
  | _ =>
    rw [hchannel, hsend]
    simp [KeepsShares]

/-- Every accepted share was received once or is still queued. -/
def AllKept (as : List (Server.Action Body)) : Prop :=
  (acceptedOver crates float (boot Body) as).Perm
    ((serve crates float as).validShares.received ++ (serve crates float as).validShares.queue)

/-- Every share counted as accepted is received once or still queued, at every
point of a run, if and only if each of them found room in the open channel and
the engine never left with messages in it. -/
theorem accepted_kept_iff (as : List (Server.Action Body)) :
    (∀ pre, pre <+: as → AllKept crates float pre) ↔
      Guarded (Server.step crates float) (KeepsShares crates float) (boot Body) as := by
  apply prefix_iff_guarded (Q := AllKept crates float) (List.Perm.refl _)
  intro pre a _ h
  rw [AllKept, acceptedOver, expand_concat, serve, run_concat]
  exact kept_step_iff crates float h a

section Examples

/-- The engine finds no Redis and returns before the first share. -/
def deafRun : List (Server.Action Unit) :=
  [.closeShares, .jobs (.newBlock template), .jobs (.advance 0), .connect 1 1,
    .submit 0 (shareParams (lit "7"))]

theorem accepted_share_lost :
    ¬ ∀ crates : Crates, ∀ float : Float → Str, ∀ as : List (Server.Action Unit),
      AllKept crates float as := by
  intro h
  have hlen := (h tameCrates (fun _ => []) deafRun).length_eq
  have hone : (acceptedOver tameCrates (fun _ => []) (boot Unit) deafRun).length = 1 := by
    decide +kernel
  have hkept : ((serve tameCrates (fun _ => []) deafRun).validShares.received ++
      (serve tameCrates (fun _ => []) deafRun).validShares.queue).length = 0 := by decide +kernel
  omega

end Examples

end StratumPool.Acceptance
