import StratumPool.Session
import StratumPool.Vardiff

namespace StratumPool.Retarget

open Lib Lib.Runs Lib.Binary64 StratumPool.Text StratumPool.Json StratumPool.Kaspa StratumPool.Vardiff
open StratumPool.Server (Connection tameCrates)
open StratumPool.Crossing (announced elsewhere first_elsewhere)
open StratumPool.Session (Message Phase RpcRequest accept parseAuthorize authorizeLine)

section Sessions

variable {Body : Type} (crates : Crates) (float : Float → Str) (parse : Str → Option RpcRequest)

/-- The difficulties among the messages of a connection. -/
def difficultiesOf (written : List Message) : List UInt64 :=
  written.filterMap fun
    | .setDifficulty difficulty => some difficulty
    | _ => none

theorem difficultiesOf_append (written more : List Message) :
    difficultiesOf (written ++ more) = difficultiesOf written ++ difficultiesOf more :=
  List.filterMap_append

theorem difficultiesOf_map_setDifficulty (ds : List UInt64) :
    difficultiesOf (ds.map Message.setDifficulty) = ds := by
  simp [difficultiesOf, List.filterMap_map]

/-- The difficulty of a connection after a step of its session. -/
def nextDiff (state : Session.State Body) (current : UInt64) : Session.Action Body → UInt64
  | .retarget newDiff => if state.phase = .serving then newDiff else current
  | _ => current

/-- The difficulties a step of the session announces. -/
def announcedIn (state : Session.State Body) (current : UInt64) :
    Session.Action Body → List UInt64
  | .greet => if state.phase = .greeting then [current] else []
  | .retarget newDiff => if state.phase = .serving ∧ newDiff ≠ current then [newDiff] else []
  | _ => []

/-- What any step of the session does to its connection's difficulty. -/
structure Outcome (state after : Session.State Body) (a : Session.Action Body) (conn : Connection) :
    Prop where
  current : ∃ conn', after.server.connections[0]? = some conn' ∧
    conn'.currentDiff = nextDiff state conn.currentDiff a
  written : difficultiesOf after.written =
    difficultiesOf state.written ++ announcedIn state conn.currentDiff a
  serving : after.phase = .serving → state.phase = .serving ∨ a = .greet ∧ state.phase = .greeting

variable {state : Session.State Body} {conn : Connection}

theorem outcome_handle (hconn : state.server.connections[0]? = some conn) (req : RpcRequest) :
    let after := Session.handle crates float state req
    (∃ conn', after.server.connections[0]? = some conn' ∧ conn'.currentDiff = conn.currentDiff) ∧
      difficultiesOf after.written = difficultiesOf state.written ∧
      (after.phase = .serving ↔ state.phase = .serving) := by
  intro after
  by_cases hserving : state.phase = .serving
  · have hafter : after = Session.serve crates float state req := if_pos hserving
    rw [hafter]
    refine ⟨?_, ?_, by simp [Session.serve]⟩
    · by_cases hsubmit : req.isSubmit = true
      · obtain ⟨-, -, -, hconns⟩ := Server.submit_outcome crates float state.server 0 req.params
        obtain ⟨conn', hconn', hdiff, -⟩ := hconns conn hconn
        exact ⟨conn', by simpa [Session.serve, hsubmit] using hconn', hdiff⟩
      · exact ⟨conn, by simpa [Session.serve, hsubmit] using hconn, rfl⟩
    · rw [Session.serve, difficultiesOf_append]
      apply List.append_nil
  · have hafter : after = Session.shake state req := if_neg hserving
    rw [hafter, Session.shake]
    split
    · rename_i hsub
      refine ⟨⟨conn, hconn, rfl⟩, ?_, by simp [hserving]⟩
      rw [difficultiesOf_append, hconn]
      apply List.append_nil
    · split
      · refine ⟨⟨conn, hconn, rfl⟩, ?_, by simp [hserving]⟩
        rw [difficultiesOf_append]
        apply List.append_nil
      · exact ⟨⟨conn, hconn, rfl⟩, rfl, Iff.rfl⟩

/-- A step that leaves the server and the messages alone. -/
theorem outcome_quiet {after : Session.State Body} {a : Session.Action Body}
    (hconn : state.server.connections[0]? = some conn) (hserver : after.server = state.server)
    (hwritten : difficultiesOf after.written = difficultiesOf state.written)
    (hphase : after.phase = .serving → state.phase = .serving)
    (hnext : nextDiff state conn.currentDiff a = conn.currentDiff)
    (hnone : announcedIn state conn.currentDiff a = []) : Outcome state after a conn where
  current := ⟨conn, by rw [hserver, hconn], hnext.symm⟩
  written := by rw [hwritten, hnone, List.append_nil]
  serving := fun h => .inl (hphase h)

theorem outcome_read (hconn : state.server.connections[0]? = some conn) (line : Option Str) :
    Outcome state (Session.step crates float parse state (.read line)) (.read line) conn := by
  cases hreq : Session.requestOf parse state (.read line) with
  | none =>
    obtain hstep | ⟨-, hstep⟩ := Session.read_cases crates float parse hreq
    · rw [hstep]
      exact outcome_quiet hconn rfl rfl id rfl rfl
    · rw [hstep]
      exact outcome_quiet hconn rfl rfl (fun h => by cases h) rfl rfl
  | some req =>
    obtain ⟨hstep, -⟩ := Session.step_of_request crates float parse hreq
    obtain ⟨hcurrent, hwritten, hphase⟩ := outcome_handle crates float hconn req
    rw [hstep]
    refine ⟨hcurrent, ?_, fun h => .inl (hphase.mp h)⟩
    rw [hwritten]
    exact (List.append_nil _).symm

theorem outcome_step (hconn : state.server.connections[0]? = some conn)
    (a : Session.Action Body) :
    Outcome state (Session.step crates float parse state a) a conn := by
  have hjob : ∀ payload : Option Str, difficultiesOf (payload.map Message.job).toList = [] := by
    rintro (_ | payload)
    · rfl
    · rfl
  cases a with
  | read line => exact outcome_read crates float parse hconn line
  | greet =>
    simp only [Session.step]
    split
    · rename_i hgreeting
      refine ⟨⟨conn, hconn, rfl⟩, ?_, fun _ => .inr ⟨rfl, hgreeting⟩⟩
      rw [difficultiesOf_append, Session.greeting, difficultiesOf_append, hjob, hconn,
        announcedIn, if_pos hgreeting]
      rfl
    · rename_i hgreeting
      exact outcome_quiet hconn rfl rfl id rfl (if_neg hgreeting)
  | receive =>
    simp only [Session.step]
    split
    · rw [Session.receive]
      split
      · exact outcome_quiet hconn rfl rfl id rfl rfl
      · exact outcome_quiet hconn rfl rfl id rfl rfl
    · exact outcome_quiet hconn rfl rfl id rfl rfl
  | tick =>
    simp only [Session.step]
    split
    · refine outcome_quiet hconn rfl ?_ id rfl rfl
      rw [difficultiesOf_append, hjob, List.append_nil]
    · exact outcome_quiet hconn rfl rfl id rfl rfl
  | retarget newDiff =>
    simp only [Session.step]
    split
    · rename_i hserving
      refine ⟨?_, ?_, fun _ => .inl hserving⟩
      · obtain ⟨hlen, _⟩ := List.getElem?_eq_some_iff.mp hconn
        refine ⟨{ conn with currentDiff := newDiff, shareCount := 0 }, ?_, (if_pos hserving).symm⟩
        simp only [Server.step, Server.retarget, hconn, Server.setConnection,
          List.getElem?_set_self hlen]
      · rw [difficultiesOf_append, difficultiesOf_map_setDifficulty]
        by_cases hsame : newDiff = conn.currentDiff
        · simp [announced, hconn, announcedIn, hsame]
        · simp [announced, hconn, announcedIn, hsame, hserving]
    · rename_i hserving
      exact outcome_quiet hconn rfl rfl id (if_neg hserving) (by simp [announcedIn, hserving])
  | elsewhere action =>
    refine ⟨⟨conn, first_elsewhere crates float hconn action, rfl⟩, ?_, .inl⟩
    exact (List.append_nil _).symm

end Sessions

/-- What vardiff reads of the configuration. -/
structure StratumConfig where
  minShareDiff : Float
  varDiff : Bool
  sharesPerMin : UInt32

/-- The time since the last retarget in nanoseconds, read once for the gate and
once for the rate. -/
structure Elapsed where
  gate : Nat
  measured : Nat
  monotone : gate ≤ measured

namespace Elapsed

def asSecs (nanos : Nat) : Nat := nanos / 10 ^ 9

def asSecsF64 (nanos : Nat) : Float :=
  (UInt64.ofNat (nanos / 10 ^ 9)).toFloat + (UInt32.ofNat (nanos % 10 ^ 9)).toFloat / 1000000000.0

def elapsedMins (elapsed : Elapsed) : Float := asSecsF64 elapsed.measured / 60.0

end Elapsed

/-- The other arms of the loop and the rest of the connection's life, and the
tick of `vardiff_interval`. -/
inductive Action (Body : Type) where
  | session (action : Session.Action Body)
  | vardiff (elapsed : Elapsed)

/-- The end of a retarget window: what was measured, and the difficulty so far. -/
structure Window where
  sharesPerMin : Float
  currentDiff : UInt64

section Steps

variable {Body : Type} (log2 : Float → Float) (config : StratumConfig) (crates : Crates)
  (float : Float → Str) (parse : Str → Option RpcRequest)

def targetSharesPerMin : Float := config.sharesPerMin.toFloat

def floorDiff : UInt64 := clampToPowerOf2 log2 config.minShareDiff

/-- `share_count` is an `i32` that wraps around in a release build. -/
def measuredRate (conn : Connection) (elapsed : Elapsed) : Float :=
  Float.ofInt (Int32.ofNat conn.shareCount).toInt / elapsed.elapsedMins

/-- The window that a step closes, if it does: a tick of the loop a minute or
more after the last one that did. -/
def closedWindow (state : Session.State Body) : Action Body → Option Window
  | .session _ => none
  | .vardiff elapsed =>
      if state.phase = .serving ∧ config.varDiff = true ∧ 60 ≤ Elapsed.asSecs elapsed.gate then
        state.server.connections[0]?.map fun conn =>
          ⟨measuredRate conn elapsed, conn.currentDiff⟩
      else none

namespace Window

variable (window : Window)

def slow : Prop := Slow window.sharesPerMin (targetSharesPerMin config)

def fast : Prop := Fast window.sharesPerMin (targetSharesPerMin config)

instance : Decidable (window.slow config) := inferInstanceAs (Decidable (Slow _ _))

instance : Decidable (window.fast config) := inferInstanceAs (Decidable (Fast _ _))

def newDiff : UInt64 :=
  Vardiff.newDiff window.sharesPerMin (targetSharesPerMin config) (floorDiff log2 config)
    window.currentDiff

end Window

/-- A step in terms of the session, whose retargets are those of vardiff. -/
def acts (state : Session.State Body) (a : Action Body) : List (Session.Action Body) :=
  match a with
  | .session (.retarget _) => []
  | .session action => [action]
  | .vardiff _ =>
      ((closedWindow config state a).map fun window =>
        Session.Action.retarget (window.newDiff log2 config)).toList

def step (state : Session.State Body) (a : Action Body) : Session.State Body :=
  run (Session.step crates float parse) state (acts log2 config state a)

/-- A new connection on a tier of this difficulty. -/
def start (server : Server.State Body) (connId : UInt64) (difficulty : Float) : Session.State Body :=
  accept server connId (clampToPowerOf2 log2 difficulty)

end Steps

section Windows

variable {Body : Type} (log2 : Float → Float) (config : StratumConfig) (crates : Crates)
  (float : Float → Str) (parse : Str → Option RpcRequest)

/-- No rate is below half of the target and above twice the target. -/
theorem not_fast_of_slow {window : Window} (h : window.slow config) : ¬ window.fast config := by
  have hlt : config.sharesPerMin.toNat < 2 ^ 53 := by
    have hlt := config.sharesPerMin.toNat_lt
    omega
  obtain ⟨hhalf, hdouble, hle⟩ := half_le_double (x := targetSharesPerMin config) rfl hlt
  exact not_both_passed hhalf hdouble hle h

/-- The three outcomes of a window. -/
theorem newDiff_cases (window : Window) :
    (window.slow config ∧ ¬ window.fast config ∧
        window.newDiff log2 config = max (window.currentDiff / 2) (floorDiff log2 config)) ∨
      (¬ window.slow config ∧ window.fast config ∧
        window.newDiff log2 config = window.currentDiff * 2) ∨
      (¬ window.slow config ∧ ¬ window.fast config ∧
        window.newDiff log2 config = window.currentDiff) := by
  rw [Window.newDiff, newDiff]
  by_cases hslow : window.slow config
  · exact .inl ⟨hslow, not_fast_of_slow config hslow, if_pos hslow⟩
  · rw [if_neg (show ¬ Slow _ _ from hslow)]
    by_cases hfast : window.fast config
    · exact .inr (.inl ⟨hslow, hfast, if_pos hfast⟩)
    · exact .inr (.inr ⟨hslow, hfast, if_neg hfast⟩)

variable {state : Session.State Body} {conn : Connection}

/-- A window belongs to a connection in its loop, and has its difficulty. -/
theorem closedWindow_some (hconn : state.server.connections[0]? = some conn) {a : Action Body}
    {window : Window} (h : closedWindow config state a = some window) :
    state.phase = .serving ∧ window.currentDiff = conn.currentDiff ∧
      acts log2 config state a = [.retarget (window.newDiff log2 config)] := by
  cases a with
  | session action => cases h
  | vardiff elapsed =>
    rw [acts, h]
    rw [closedWindow] at h
    split at h
    · rename_i hdue
      rw [hconn] at h
      cases h
      exact ⟨hdue.1, rfl, rfl⟩
    · cases h

/-- The difficulty announced in a step: the first one by the greeting, and a new
one by a window that changes it. -/
def announcedBy (state : Session.State Body) (current : UInt64) (a : Action Body) : List UInt64 :=
  match closedWindow config state a with
  | some window =>
      if window.newDiff log2 config ≠ current then [window.newDiff log2 config] else []
  | none =>
      match a with
      | .session .greet => if state.phase = .greeting then [current] else []
      | _ => []

/-- What a step does to the difficulty of its connection and announces of it. -/
structure Effect (state after : Session.State Body) (a : Action Body) (conn : Connection) :
    Prop where
  current : ∃ conn', after.server.connections[0]? = some conn' ∧ conn'.currentDiff =
    ((closedWindow config state a).map (Window.newDiff log2 config)).getD conn.currentDiff
  written : difficultiesOf after.written =
    difficultiesOf state.written ++ announcedBy log2 config state conn.currentDiff a
  serving : after.phase = .serving → state.phase = .serving ∨
    a = .session .greet ∧ state.phase = .greeting
  past : state.phase = .serving ∨ state.phase = .closed →
    after.phase = .serving ∨ after.phase = .closed

theorem effect_step (hconn : state.server.connections[0]? = some conn) (a : Action Body) :
    Effect log2 config state (step log2 config crates float parse state a) a conn := by
  have hidle (hacts : acts log2 config state a = []) (hnone : closedWindow config state a = none)
      (hquiet : announcedBy log2 config state conn.currentDiff a = []) :
      Effect log2 config state (step log2 config crates float parse state a) a conn := by
    rw [step, hacts, run_nil]
    exact ⟨⟨conn, hconn, by rw [hnone]; rfl⟩, by rw [hquiet, List.append_nil], .inl, id⟩
  cases hwindow : closedWindow config state a with
  | some window =>
    obtain ⟨hserving, hcurrent, hacts⟩ := closedWindow_some log2 config hconn hwindow
    have ho := outcome_step crates float parse hconn (.retarget (window.newDiff log2 config))
    rw [step, hacts, run_cons, run_nil]
    refine ⟨?_, ?_, fun _ => .inl hserving, ?_⟩
    · obtain ⟨conn', hconn', hdiff⟩ := ho.current
      refine ⟨conn', hconn', ?_⟩
      rw [hdiff, nextDiff, if_pos hserving, hwindow]
      rfl
    · rw [ho.written]
      simp [announcedIn, announcedBy, hwindow, hserving]
    · intro hpast
      exact (Session.later_step crates float parse hpast _).1
  | none =>
    cases a with
    | vardiff elapsed =>
      refine hidle ?_ hwindow ?_
      · rw [acts, hwindow]
        rfl
      · simp only [announcedBy, hwindow]
    | session action =>
      have hpass (hacts : acts log2 config state (.session action) = [action])
          (hnext : nextDiff state conn.currentDiff action = conn.currentDiff)
          (hin : announcedIn state conn.currentDiff action =
            announcedBy log2 config state conn.currentDiff (.session action)) :
          Effect log2 config state
            (step log2 config crates float parse state (.session action)) (.session action) conn := by
        have ho := outcome_step crates float parse hconn action
        rw [step, hacts, run_cons, run_nil]
        refine ⟨?_, by rw [ho.written, hin], ?_, ?_⟩
        · obtain ⟨conn', hconn', hdiff⟩ := ho.current
          exact ⟨conn', hconn', hdiff.trans hnext⟩
        · intro hs
          exact (ho.serving hs).imp_right fun h => ⟨congrArg Action.session h.1, h.2⟩
        · intro hpast
          exact (Session.later_step crates float parse hpast _).1
      cases action with
      | retarget newDiff => exact hidle rfl rfl rfl
      | _ => exact hpass rfl rfl rfl

/-- The connection is there. -/
def Connected (state : Session.State Body) : Prop :=
  ∃ conn, state.server.connections[0]? = some conn

theorem connected_run (server : Server.State Body) (connId : UInt64) (difficulty : Float)
    (as : List (Action Body)) :
    Always (step log2 config crates float parse) Connected (start log2 server connId difficulty)
      as := by
  refine always_of_invariant (I := Connected) ⟨_, rfl⟩ ?_ as
  rintro state a ⟨conn, hconn⟩
  obtain ⟨conn', hconn', -⟩ := (effect_step log2 config crates float parse hconn a).current
  exact ⟨conn', hconn'⟩

end Windows

section Direction

variable {Body : Type} (log2 : Float → Float) (config : StratumConfig) (crates : Crates)
  (float : Float → Str) (parse : Str → Option RpcRequest)

/-- A step that closes a window does not raise the difficulty after too few
shares, nor lower it after too many. -/
def Directed (state : Session.State Body) (a : Action Body) : Prop :=
  ∀ window, closedWindow config state a = some window →
    ∀ conn, (step log2 config crates float parse state a).server.connections[0]? = some conn →
      (window.slow config → conn.currentDiff ≤ window.currentDiff) ∧
        (window.fast config → window.currentDiff ≤ conn.currentDiff)

/-- A slow window finds the difficulty at the floor or above it, and a fast one
finds it below 2^63. -/
def Steerable (state : Session.State Body) (a : Action Body) : Prop :=
  ∀ window, closedWindow config state a = some window →
    (window.slow config → floorDiff log2 config ≤ window.currentDiff) ∧
      (window.fast config → window.currentDiff < 2 ^ 63)

theorem directed_iff {state : Session.State Body} (h : Connected state) (a : Action Body) :
    Directed log2 config crates float parse state a ↔ Steerable log2 config state a := by
  obtain ⟨conn, hconn⟩ := h
  obtain ⟨conn', hconn', hdiff⟩ := (effect_step log2 config crates float parse hconn a).current
  refine forall_congr' fun window => forall_congr' fun hwindow => ?_
  have hnew : conn'.currentDiff = window.newDiff log2 config := by rw [hdiff, hwindow]; rfl
  simp only [hconn', Option.some.injEq, forall_eq', hnew]
  obtain ⟨hslow, hfast, hd⟩ | ⟨hslow, hfast, hd⟩ | ⟨hslow, hfast, hd⟩ :=
    newDiff_cases log2 config window
  · simp [hslow, hfast, hd, half_le_iff]
  · simp [hslow, hfast, hd, le_double_iff]
  · simp [hslow, hfast]

/-- Over a whole run vardiff moves in the right direction if and only if no slow
window finds the difficulty below the floor and no fast one finds it at its
largest. -/
theorem retargets_directed_iff (server : Server.State Body) (connId : UInt64) (difficulty : Float)
    (as : List (Action Body)) :
    Guarded (step log2 config crates float parse) (Directed log2 config crates float parse)
        (start log2 server connId difficulty) as ↔
      Guarded (step log2 config crates float parse) (Steerable log2 config)
        (start log2 server connId difficulty) as :=
  guarded_congr (connected_run log2 config crates float parse server connId difficulty as)
    fun _ a h => directed_iff log2 config crates float parse h a

end Direction

section Overflow

variable {Body : Type} (log2 : Float → Float) (config : StratumConfig) (crates : Crates)
  (float : Float → Str) (parse : Str → Option RpcRequest)

/-- The difficulty of the connection is a power of two between 1 and 2^63. -/
def HasPower (state : Session.State Body) : Prop :=
  ∀ conn, state.server.connections[0]? = some conn → IsPower conn.currentDiff

/-- Neither the power of the clamped minimum nor the doubling of a step wraps
around. -/
def Exact (state : Session.State Body) (a : Action Body) : Prop :=
  ∀ window, closedWindow config state a = some window →
    (window.slow config → (floorDiff log2 config).toNat = 2 ^ exponent log2 config.minShareDiff) ∧
      (window.fast config → (window.currentDiff * 2).toNat = window.currentDiff.toNat * 2)

/-- The exponent of the minimum fits where a window uses it, and no fast window
finds the largest difficulty. -/
def Fits (state : Session.State Body) (a : Action Body) : Prop :=
  ∀ window, closedWindow config state a = some window →
    (window.slow config → exponent log2 config.minShareDiff < 64) ∧
      (window.fast config → window.currentDiff < 2 ^ 63)

theorem exact_iff (state : Session.State Body) (a : Action Body) :
    Exact log2 config state a ↔ Fits log2 config state a := by
  refine forall_congr' fun window => forall_congr' fun _ => ?_
  rw [floorDiff, clamp_exact_iff, double_exact_iff]

theorem isPower_newDiff {window : Window} (hpower : IsPower window.currentDiff)
    (hslow : window.slow config → exponent log2 config.minShareDiff < 64)
    (hfast : window.fast config → window.currentDiff < 2 ^ 63) :
    IsPower (window.newDiff log2 config) := by
  obtain ⟨e, he, hcurrent⟩ := hpower
  obtain ⟨hs, -, hnew⟩ | ⟨-, hf, hnew⟩ | ⟨-, -, hnew⟩ := newDiff_cases log2 config window
  · have hb := hslow hs
    rw [hnew, hcurrent, floorDiff, clampToPowerOf2_eq, half_two_pow he hb]
    exact ⟨_, by omega, rfl⟩
  · have hlt := hfast hf
    rw [hcurrent, UInt64.lt_iff_toNat_lt, toNat_two_pow_lt he, toNat_two_pow_lt (by decide),
      Nat.pow_lt_pow_iff_right (by decide)] at hlt
    rw [hnew, hcurrent]
    exact ⟨e + 1, by omega, rfl⟩
  · rw [hnew, hcurrent]
    exact ⟨e, he, rfl⟩

/-- Over a whole run the difficulty is a power of two that nothing overflows if
and only if the exponents of the tier and of the minimum fit and no fast window
finds the largest difficulty. -/
theorem difficulty_valid_iff (server : Server.State Body) (connId : UInt64) (difficulty : Float)
    (as : List (Action Body)) :
    ((clampToPowerOf2 log2 difficulty).toNat = 2 ^ exponent log2 difficulty ∧
        Always (step log2 config crates float parse) HasPower
          (start log2 server connId difficulty) as ∧
        Guarded (step log2 config crates float parse) (Exact log2 config)
          (start log2 server connId difficulty) as) ↔
      exponent log2 difficulty < 64 ∧
        Guarded (step log2 config crates float parse) (Fits log2 config)
          (start log2 server connId difficulty) as := by
  have hconnected := connected_run log2 config crates float parse server connId difficulty as
  rw [clamp_exact_iff, guarded_congr hconnected fun t a _ => exact_iff log2 config t a]
  refine and_congr_right fun hexponent => and_iff_right_of_imp fun hguard => ?_
  have hinv : Always (step log2 config crates float parse)
      (fun state => ∃ conn, state.server.connections[0]? = some conn ∧ IsPower conn.currentDiff)
      (start log2 server connId difficulty) as := by
    refine hguard.always ⟨_, rfl, _, hexponent, clampToPowerOf2_eq log2 difficulty⟩ ?_
    rintro state a ⟨conn, hconn, hpower⟩ hfits
    obtain ⟨conn', hconn', hdiff⟩ := (effect_step log2 config crates float parse hconn a).current
    refine ⟨conn', hconn', ?_⟩
    rw [hdiff]
    cases hwindow : closedWindow config state a with
    | none => exact hpower
    | some window =>
      obtain ⟨-, hcurrent, -⟩ := closedWindow_some log2 config hconn hwindow
      rw [← hcurrent] at hpower
      obtain ⟨hslow, hfast⟩ := hfits window hwindow
      exact isPower_newDiff log2 config hpower hslow hfast
  refine always_mono ?_ hinv
  rintro state ⟨conn, hconn, hpower⟩ conn' hconn'
  obtain rfl : conn = conn' := Option.some.inj (hconn.symm.trans hconn')
  exact hpower

end Overflow

section Minimum

variable {Body : Type} (log2 : Float → Float) (config : StratumConfig) (crates : Crates)
  (float : Float → Str) (parse : Str → Option RpcRequest)

/-- Every difficulty announced so far is at least the configured minimum. -/
def AnnouncedRespects (state : Session.State Body) : Prop :=
  ∀ difficulty ∈ difficultiesOf state.written, config.minShareDiff ≤ difficulty.toFloat

/-- The difficulty that `verify_share` is called with in a step, if it is. -/
def judgedAt (state : Session.State Body) : Action Body → Option Float
  | .session action =>
      match Session.requestOf parse state action with
      | some req =>
          if state.phase = .serving ∧ req.isSubmit then
            (Server.verdictOf crates float state.server (.submit 0 req.params)).bind
              fun (conn, _, verdict) => verdict.header.map fun _ => conn.currentDiff.toFloat
          else none
      | none => none
  | .vardiff _ => none

def JudgedRespects (state : Session.State Body) (a : Action Body) : Prop :=
  ∀ difficulty, judgedAt crates float parse state a = some difficulty →
    config.minShareDiff ≤ difficulty

/-- The tier's own difficulty is greeted with only if it is at least the minimum,
a slow window ends at the rounded minimum or the half, of which one must be, and
a fast one must not overflow. -/
def KeepsMinimum (difficulty : Float) (state : Session.State Body) (a : Action Body) : Prop :=
  (a = .session .greet → state.phase = .greeting →
      config.minShareDiff ≤ (clampToPowerOf2 log2 difficulty).toFloat) ∧
    ∀ window, closedWindow config state a = some window →
      (window.slow config → config.minShareDiff ≤ (window.currentDiff / 2).toFloat ∨
          config.minShareDiff ≤ (floorDiff log2 config).toFloat) ∧
        (window.fast config → window.currentDiff < 2 ^ 63 ∨ config.minShareDiff ≤ 0.0)

/-- The difficulty is one the rule can reach. Up to the greeting it is the
tier's, and from then on the miner knows it. -/
structure Tracked (difficulty : Float) (state : Session.State Body) (conn : Connection) : Prop where
  first : state.server.connections[0]? = some conn
  reached : Reached conn.currentDiff
  early : ¬ (state.phase = .serving ∨ state.phase = .closed) →
    conn.currentDiff = clampToPowerOf2 log2 difficulty
  known : state.phase = .serving → conn.currentDiff ∈ difficultiesOf state.written

theorem reached_newDiff {window : Window} (h : Reached window.currentDiff) :
    Reached (window.newDiff log2 config) := by
  obtain ⟨-, -, hnew⟩ | ⟨-, -, hnew⟩ | ⟨-, -, hnew⟩ := newDiff_cases log2 config window
  · rw [hnew, floorDiff, clampToPowerOf2_eq]
    exact reached_max (reached_half h) (reached_two_pow _)
  · rw [hnew]
    apply reached_double h
  · rwa [hnew]

variable {difficulty : Float} {state : Session.State Body} {conn : Connection}

theorem tracked_step (h : Tracked log2 difficulty state conn) (a : Action Body) :
    ∃ conn', Tracked log2 difficulty (step log2 config crates float parse state a) conn' := by
  have heffect := effect_step log2 config crates float parse h.first a
  obtain ⟨conn', hconn', hdiff⟩ := heffect.current
  refine ⟨conn', hconn', ?_, ?_, ?_⟩
  · rw [hdiff]
    cases hwindow : closedWindow config state a with
    | none => exact h.reached
    | some window =>
      obtain ⟨-, hcurrent, -⟩ := closedWindow_some log2 config h.first hwindow
      exact reached_newDiff log2 config (hcurrent ▸ h.reached)
  · intro hearly
    have hbefore := fun hpast => hearly (heffect.past hpast)
    rw [hdiff, ← h.early hbefore]
    cases hwindow : closedWindow config state a with
    | none => rfl
    | some window =>
      obtain ⟨hserving, -, -⟩ := closedWindow_some log2 config h.first hwindow
      exact absurd (.inl hserving) hbefore
  · intro hserving
    rw [heffect.written, hdiff, List.mem_append]
    cases hwindow : closedWindow config state a with
    | some window =>
      obtain ⟨hbefore, -, -⟩ := closedWindow_some log2 config h.first hwindow
      by_cases hsame : window.newDiff log2 config = conn.currentDiff
      · left
        simpa [hsame] using h.known hbefore
      · right
        simp [announcedBy, hwindow, hsame]
    | none =>
      obtain hbefore | ⟨rfl, hgreeting⟩ := heffect.serving hserving
      · exact .inl (h.known hbefore)
      · right
        simp [announcedBy, hwindow, hgreeting]

/-- When a step keeps what is announced at the minimum or above. -/
theorem announcedRespects_step (h : Tracked log2 difficulty state conn)
    (hall : AnnouncedRespects config state) (a : Action Body) :
    AnnouncedRespects config (step log2 config crates float parse state a) ↔
      KeepsMinimum log2 config difficulty state a := by
  have heffect := effect_step log2 config crates float parse h.first a
  have hsplit : AnnouncedRespects config (step log2 config crates float parse state a) ↔
      ∀ d ∈ announcedBy log2 config state conn.currentDiff a, config.minShareDiff ≤ d.toFloat := by
    rw [AnnouncedRespects, heffect.written]
    constructor
    · intro hnew d hd
      exact hnew d (List.mem_append_right _ hd)
    · intro hnew d hd
      exact (List.mem_append.mp hd).elim (hall d) (hnew d)
  rw [hsplit, KeepsMinimum]
  cases hwindow : closedWindow config state a with
  | none =>
    have hearly : state.phase = .greeting → conn.currentDiff = clampToPowerOf2 log2 difficulty := by
      intro hgreeting
      exact h.early (by simp [hgreeting])
    by_cases hgreet : a = .session .greet ∧ state.phase = .greeting
    · obtain ⟨rfl, hgreeting⟩ := hgreet
      simp [announcedBy, hwindow, hgreeting, hearly hgreeting]
    · have hnone : announcedBy log2 config state conn.currentDiff a = [] := by
        simp only [announcedBy, hwindow]
        split
        · exact if_neg fun hgreeting => hgreet ⟨rfl, hgreeting⟩
        · rfl
      rw [hnone]
      refine iff_of_true (by simp) ⟨fun ha hgreeting => absurd ⟨ha, hgreeting⟩ hgreet, ?_⟩
      rintro window ⟨⟩
  | some window =>
    obtain ⟨hserving, hcurrent, -⟩ := closedWindow_some log2 config h.first hwindow
    have hcurrentRespects : config.minShareDiff ≤ conn.currentDiff.toFloat :=
      hall _ (h.known hserving)
    have hannounced : (∀ d ∈ announcedBy log2 config state conn.currentDiff a,
        config.minShareDiff ≤ d.toFloat) ↔
          config.minShareDiff ≤ (window.newDiff log2 config).toFloat := by
      by_cases hsame : window.newDiff log2 config = conn.currentDiff
      · simp [announcedBy, hwindow, hsame, hcurrentRespects]
      · simp [announcedBy, hwindow, hsame]
    have hreached : Reached window.currentDiff := hcurrent ▸ h.reached
    rw [← hcurrent] at hcurrentRespects
    have hgreeting : state.phase ≠ .greeting := by simp [hserving]
    rw [hannounced]
    simp only [hgreeting, false_imp_iff, implies_true, true_and, Option.some.injEq, forall_eq']
    obtain ⟨hs, hf, hnew⟩ | ⟨hs, hf, hnew⟩ | ⟨hs, hf, hnew⟩ := newDiff_cases log2 config window
    · have hfloor : Reached (floorDiff log2 config) := by
        rw [floorDiff, clampToPowerOf2_eq]
        apply reached_two_pow
      rw [hnew, le_max_iff (reached_half hreached) hfloor]
      simp [hs, hf]
    · rw [hnew, le_double_iff_of_le hreached hcurrentRespects]
      simp [hs, hf]
    · rw [hnew]
      simp [hs, hf, hcurrentRespects]

/-- A share is judged in the loop, by the difficulty of its connection. -/
theorem judgedAt_eq (hconn : state.server.connections[0]? = some conn) {a : Action Body}
    {judged : Float} (hj : judgedAt crates float parse state a = some judged) :
    state.phase = .serving ∧ judged = conn.currentDiff.toFloat := by
  cases a with
  | vardiff elapsed => cases hj
  | session action =>
    rw [judgedAt] at hj
    split at hj
    · rename_i req hreq
      split at hj
      · rename_i hsubmit
        refine ⟨hsubmit.1, ?_⟩
        obtain ⟨⟨conn', submission, verdict⟩, hverdict, hjudged⟩ := Option.bind_eq_some_iff.mp hj
        obtain ⟨header, -, rfl⟩ := Option.map_eq_some_iff.mp hjudged
        obtain ⟨hnone, -⟩ | ⟨first, read, hfirst, hsome, -⟩ :=
          Server.submit_cases crates float state.server 0 req.params
        · rw [hnone] at hverdict
          cases hverdict
        · rw [hsome] at hverdict
          cases hverdict
          rw [Option.some.inj (hfirst.symm.trans hconn)]
      · cases hj
    · cases hj

/-- Over a whole run every difficulty announced and every one that judges a
share is at least the minimum if and only if each step keeps it. -/
theorem minimum_respected_iff (server : Server.State Body) (connId : UInt64) (difficulty : Float)
    (as : List (Action Body)) :
    (Always (step log2 config crates float parse) (AnnouncedRespects config)
          (start log2 server connId difficulty) as ∧
        Guarded (step log2 config crates float parse) (JudgedRespects config crates float parse)
          (start log2 server connId difficulty) as) ↔
      Guarded (step log2 config crates float parse) (KeepsMinimum log2 config difficulty)
        (start log2 server connId difficulty) as := by
  have htracked : Always (step log2 config crates float parse)
      (fun state => ∃ conn, Tracked log2 difficulty state conn)
      (start log2 server connId difficulty) as := by
    refine always_of_invariant (I := fun state => ∃ conn, Tracked log2 difficulty state conn) ?_
      ?_ as
    · refine ⟨_, rfl, ?_, fun _ => rfl, fun hserving => by cases hserving⟩
      rw [clampToPowerOf2_eq]
      apply reached_two_pow
    · rintro state a ⟨conn, h⟩
      exact tracked_step log2 config crates float parse h a
  have hannounced := always_iff_guarded (P := AnnouncedRespects config)
    (G := KeepsMinimum log2 config difficulty) htracked (fun _ hd => by cases hd)
    fun state a ⟨conn, h⟩ hall =>
      announcedRespects_step log2 config crates float parse h hall a
  rw [← hannounced]
  refine and_iff_left_of_imp fun hall pre a hp judged hj => ?_
  obtain ⟨conn, h⟩ := htracked pre (prefix_of_concat hp)
  obtain ⟨hserving, rfl⟩ := judgedAt_eq crates float parse h.first hj
  exact hall pre (prefix_of_concat hp) _ (h.known hserving)

end Minimum

section Examples

/-- The logarithm, rounded down. It is exact on the powers of two. -/
def floorLog2 (x : Float) : Float :=
  match x.toModel.unpack with
  | .finite .positive m e _ => Float.ofInt (m.log2 + e)
  | _ => 0.0

def subscribeLine : Str := lit "\x7b\"id\":1,\"method\":\"mining.subscribe\",\"params\":[]\x7d"

/-- A reader that knows the two lines of the handshake. -/
def parseHandshake (text : Str) : Option RpcRequest :=
  if text = subscribeLine then
    some ⟨some (.number (.posInt 1)), some (lit "mining.subscribe"), some []⟩
  else parseAuthorize text

def handshake : List (Action Unit) :=
  [.session (.read (some subscribeLine)), .session (.read (some authorizeLine)), .session .greet]

/-- A connection of the first tier after its handshake. -/
def greeted (config : StratumConfig) : Session.State Unit :=
  run (step floorLog2 config tameCrates (fun _ => []) parseHandshake)
    (start floorLog2 (Server.boot Unit) 1 1.0) handshake

/-- A minute in which no share arrives. -/
def idle : Action Unit := .vardiff ⟨60 * 10 ^ 9, 60 * 10 ^ 9, le_rfl⟩

/-- The configuration of `config.yaml`. -/
def shipped : StratumConfig := ⟨2.0, true, 20⟩

/-- A slow miner of the first tier is moved from difficulty 1 to 2. -/
theorem slow_miner_raised :
    ¬ ∀ log2 : Float → Float, ∀ config : StratumConfig, ∀ crates : Crates,
      ∀ float : Float → Str, ∀ parse : Str → Option RpcRequest, ∀ server : Server.State Unit,
      ∀ connId : UInt64, ∀ difficulty : Float, ∀ as : List (Action Unit),
        Guarded (step log2 config crates float parse) (Directed log2 config crates float parse)
          (start log2 server connId difficulty) as := by
  intro h
  have hdirected := h floorLog2 shipped tameCrates (fun _ => []) parseHandshake (Server.boot Unit) 1
    1.0 (handshake ++ [idle]) handshake idle List.prefix_rfl
  have hsome : (closedWindow shipped (greeted shipped) idle).isSome = true := by decide +kernel
  obtain ⟨window, hwindow⟩ := Option.isSome_iff_exists.mp hsome
  have hslow : window.slow shipped := by
    have hany : (closedWindow shipped (greeted shipped) idle).any
        (fun window => decide (window.slow shipped)) = true := by decide +kernel
    rw [hwindow] at hany
    exact of_decide_eq_true hany
  have hold : window.currentDiff = 1 := by
    have hmap : (closedWindow shipped (greeted shipped) idle).map Window.currentDiff = some 1 := by
      decide +kernel
    rw [hwindow] at hmap
    exact Option.some.inj hmap
  have hnew : (step floorLog2 shipped tameCrates (fun _ => []) parseHandshake (greeted shipped)
      idle).server.connections[0]?.map Connection.currentDiff = some 2 := by decide +kernel
  obtain ⟨conn, hconn, hcurrent⟩ := Option.map_eq_some_iff.mp hnew
  have hle := (hdirected window hwindow conn hconn).1 hslow
  rw [hold, hcurrent] at hle
  exact absurd hle (by decide)

/-- A minimum whose logarithm rounds to 64. -/
def huge : StratumConfig := ⟨18446744073709551616.0, true, 20⟩

/-- A minute without shares takes the difficulty of the first tier to zero. -/
theorem difficulty_overflows :
    ¬ ∀ log2 : Float → Float, ∀ config : StratumConfig, ∀ crates : Crates,
      ∀ float : Float → Str, ∀ parse : Str → Option RpcRequest, ∀ server : Server.State Unit,
      ∀ connId : UInt64, ∀ difficulty : Float, ∀ as : List (Action Unit),
        (clampToPowerOf2 log2 difficulty).toNat = 2 ^ exponent log2 difficulty ∧
          Always (step log2 config crates float parse) HasPower
            (start log2 server connId difficulty) as ∧
          Guarded (step log2 config crates float parse) (Exact log2 config)
            (start log2 server connId difficulty) as := by
  intro h
  have hpower := (h floorLog2 huge tameCrates (fun _ => []) parseHandshake (Server.boot Unit) 1 1.0
    (handshake ++ [idle])).2.1.last
  have hnew : (run (step floorLog2 huge tameCrates (fun _ => []) parseHandshake)
      (start floorLog2 (Server.boot Unit) 1 1.0)
      (handshake ++ [idle])).server.connections[0]?.map Connection.currentDiff = some 0 := by
    decide +kernel
  obtain ⟨conn, hconn, hcurrent⟩ := Option.map_eq_some_iff.mp hnew
  obtain ⟨k, hk, hzero⟩ := hpower conn hconn
  have hnat := congrArg UInt64.toNat (hcurrent.symm.trans hzero)
  rw [toNat_two_pow_lt hk] at hnat
  have hpos : 0 < 2 ^ k := by positivity
  change 0 = 2 ^ k at hnat
  omega

/-- The first tier greets its miners with difficulty 1 whatever the minimum is. -/
theorem first_tier_below_minimum :
    ¬ ∀ log2 : Float → Float, ∀ config : StratumConfig, ∀ crates : Crates,
      ∀ float : Float → Str, ∀ parse : Str → Option RpcRequest, ∀ server : Server.State Unit,
      ∀ connId : UInt64, ∀ difficulty : Float, ∀ as : List (Action Unit),
        Always (step log2 config crates float parse) (AnnouncedRespects config)
            (start log2 server connId difficulty) as ∧
          Guarded (step log2 config crates float parse) (JudgedRespects config crates float parse)
            (start log2 server connId difficulty) as := by
  intro h
  have hrespects := (h floorLog2 shipped tameCrates (fun _ => []) parseHandshake (Server.boot Unit)
    1 1.0 handshake).1.last
  have hannounced : difficultiesOf (run (step floorLog2 shipped tameCrates (fun _ => [])
      parseHandshake) (start floorLog2 (Server.boot Unit) 1 1.0) handshake).written = [1] := by
    decide +kernel
  have hle := hrespects 1 (by rw [hannounced]; exact List.mem_singleton_self 1)
  exact absurd hle (by decide +kernel)

end Examples

end StratumPool.Retarget
