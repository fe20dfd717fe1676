import StratumPool.Lib.Runs
import StratumPool.Text
import Mathlib.Data.List.InsertIdx
import Mathlib.Data.List.Perm.Basic

namespace StratumPool.Listener

open Lib.Runs StratumPool.Text

/-- The three listeners, on the ports 5551, 5552 and 5553. -/
inductive Tier where
  | gpu
  | homeAsic
  | industrial
  deriving DecidableEq

structure Connection where
  tier : Tier
  connId : UInt64

def Connection.extranonce1 (conn : Connection) : Str := lowHex conn.connId

/-- `accepted` are the sockets whose handler has not yet taken its id, `live`
the handlers that run. -/
structure Server where
  permits : Tier → Nat
  accepted : List Tier
  workerIdCounter : UInt64
  live : List Connection

def boot : Server := ⟨fun _ => 5000, [], 1, []⟩

inductive Action where
  | accept (tier : Tier)
  | start (index : Nat)
  | disconnect (index : Nat)

def accept (server : Server) (tier : Tier) : Server :=
  if 0 < server.permits tier then
    { server with
      permits := Function.update server.permits tier (server.permits tier - 1)
      accepted := server.accepted ++ [tier] }
  else server

/-- The handler's first lines: it takes the next id, which wraps at the end of
the 64 bits. -/
def start (server : Server) (index : Nat) : Server :=
  match server.accepted[index]? with
  | none => server
  | some tier =>
      { server with
        accepted := server.accepted.eraseIdx index
        workerIdCounter := server.workerIdCounter + 1
        live := server.live ++ [⟨tier, server.workerIdCounter⟩] }

def disconnect (server : Server) (index : Nat) : Server :=
  match server.live[index]? with
  | none => server
  | some conn =>
      { server with
        permits := Function.update server.permits conn.tier (server.permits conn.tier + 1)
        live := server.live.eraseIdx index }

def step (server : Server) : Action → Server
  | .accept tier => accept server tier
  | .start index => start server index
  | .disconnect index => disconnect server index

section Permits

def holders (server : Server) (tier : Tier) : Nat :=
  server.accepted.count tier + (server.live.map Connection.tier).count tier

def PermitsBalance (server : Server) : Prop :=
  ∀ tier, server.permits tier + holders server tier = 5000

theorem count_eraseIdx {α : Type} [DecidableEq α] {l : List α} {i : Nat} {a : α}
    (h : l[i]? = some a) (b : α) :
    (l.eraseIdx i).count b + (if a = b then 1 else 0) = l.count b := by
  obtain ⟨hi, rfl⟩ := List.getElem?_eq_some_iff.mp h
  have hp := (List.getElem_cons_eraseIdx_perm hi).count_eq b
  rw [List.count_cons] at hp
  simpa using hp

theorem permits_step {server : Server} (hb : PermitsBalance server) (a : Action) :
    PermitsBalance (step server a) := by
  intro tier
  have ht := hb tier
  rw [holders] at ht
  cases a with
  | accept t =>
    simp only [step, accept]
    split
    · rename_i hpos
      by_cases htt : tier = t
      · subst htt
        simp [holders]
        omega
      · simp [holders, Function.update_of_ne htt, Ne.symm htt]
        omega
    · exact hb tier
  | start i =>
    simp only [step, start]
    cases ha : server.accepted[i]? with
    | none => exact hb tier
    | some t =>
      have hc := count_eraseIdx ha tier
      simp only [holders, List.map_append, List.map_cons, List.map_nil, List.count_append,
        List.count_singleton, beq_iff_eq]
      omega
  | disconnect i =>
    simp only [step, disconnect]
    cases hl : server.live[i]? with
    | none => exact hb tier
    | some conn =>
      have hm : (server.live.map Connection.tier)[i]? = some conn.tier := by simp [hl]
      have hc := count_eraseIdx hm tier
      rw [List.eraseIdx_map] at hc
      simp only [holders]
      by_cases htt : tier = conn.tier
      · subst htt
        simp only [Function.update_self, if_true] at hc ⊢
        omega
      · simp only [Function.update_of_ne htt, if_neg (Ne.symm htt)] at hc ⊢
        omega

/-- No listener ever serves more than its five thousand connections. -/
theorem holders_bounded (as : List Action) :
    Always step (fun server => ∀ tier, holders server tier ≤ 5000) boot as := by
  have hboot : PermitsBalance boot := fun tier => by simp [boot, holders]
  refine always_mono ?_ (always_of_invariant hboot (fun _ a h => permits_step h a) as)
  intro server hb tier
  have ht := hb tier
  omega

end Permits

section Extranonces

def Distinct (server : Server) : Prop := (server.live.map Connection.extranonce1).Nodup

/-- A handler that takes its id meets no live connection whose id agrees with
it in the low sixteen bits. -/
def FreshLowBits (server : Server) : Action → Prop
  | .start index => index < server.accepted.length → ∀ conn ∈ server.live,
      conn.connId.toNat % 65536 ≠ server.workerIdCounter.toNat % 65536
  | _ => True

theorem distinct_step (server : Server) (a : Action) (hd : Distinct server) :
    Distinct (step server a) ↔ FreshLowBits server a := by
  cases a with
  | accept t =>
    simp only [step, accept, FreshLowBits, iff_true]
    split <;> exact hd
  | disconnect i =>
    simp only [step, disconnect, FreshLowBits, iff_true]
    cases hl : server.live[i]? with
    | none => exact hd
    | some conn => exact hd.sublist ((List.eraseIdx_sublist ..).map _)
  | start i =>
    simp only [step, start, FreshLowBits]
    cases ha : server.accepted[i]? with
    | none =>
      have hlen := List.getElem?_eq_none_iff.mp ha
      exact iff_of_true hd (fun hlt => absurd hlt (not_lt.mpr hlen))
    | some t =>
      have hlen := (List.getElem?_eq_some_iff.mp ha).1
      simp only [Distinct, List.map_append, List.map_cons, List.map_nil, hlen, true_implies]
      rw [(List.perm_append_singleton _ _).nodup_iff, List.nodup_cons]
      constructor
      · rintro ⟨hnew, _⟩ conn hc heq
        refine hnew (List.mem_map.mpr ⟨conn, hc, ?_⟩)
        exact (lowHex_eq_iff _ _).mpr heq
      · intro h
        refine ⟨?_, hd⟩
        intro hmem
        obtain ⟨conn, hc, heq⟩ := List.mem_map.mp hmem
        exact h conn hc ((lowHex_eq_iff _ _).mp heq)

/-- Connections that come and go one at a time while the first one stays. -/
def churn : Nat → List Action
  | 0 => [.accept .gpu, .start 0]
  | n + 1 => churn n ++ [.accept .gpu, .start 0, .disconnect 1]

theorem run_churn (n : Nat) :
    run step boot (churn n) =
      ⟨Function.update (fun _ => 5000) .gpu 4999, [], UInt64.ofNat (n + 2), [⟨.gpu, 1⟩]⟩ := by
  induction n with
  | zero => simp [churn, step, accept, start, boot]
  | succ n ih =>
    rw [churn, run_append, ih]
    simp [step, accept, start, disconnect, UInt64.ofNat_add]
    rw [UInt64.add_assoc, UInt64.add_assoc]
    rfl

/-- Live connections have distinct extranonces throughout a run if and only if
no handler starts while an id from an earlier turn of the sixteen low bits is
still in use. -/
theorem extranonces_distinct_iff (as : List Action) :
    Always step Distinct boot as ↔ Guarded step FreshLowBits boot as :=
  always_iff_guarded (I := fun _ => True) (fun _ _ => trivial) List.nodup_nil
    (fun server a _ => distinct_step server a)

/-- One connection outlives 65535 others; the next one gets its extranonce. -/
theorem extranonce_reused_after_churn : ¬ ∀ as : List Action, Always step Distinct boot as := by
  intro h
  have hlast := (h (churn 65535 ++ [.accept .gpu, .start 0])).last
  rw [run_append, run_churn] at hlast
  have hsame : Connection.extranonce1 ⟨.gpu, 1⟩ = Connection.extranonce1 ⟨.gpu, UInt64.ofNat 65537⟩ :=
    (lowHex_eq_iff _ _).mpr (by decide)
  simp [Distinct, step, accept, start, hsame] at hlast

end Extranonces

end StratumPool.Listener
