import StratumPool.Lib.Runs
import Mathlib.Data.List.Range
import Mathlib.Data.List.Nodup
import Mathlib.Algebra.BigOperators.Group.List.Basic

namespace Lib

inductive HandOff.Stage where
  | idle | read | trimmed
  deriving DecidableEq

/-- A list that producers append to and one consumer works off in three steps:
it reads a bounded prefix, removes what it read, and settles it. Each element
carries the number it was pushed under; `pushed` and `applied` are the history
of what came in and of what took effect. -/
structure HandOff (α : Type) where
  pushed : List (Nat × α)
  buffer : List (Nat × α)
  hand : List (Nat × α)
  stage : HandOff.Stage
  applied : List (Nat × α)

namespace HandOff

variable {α : Type}

def empty (α : Type) : HandOff α := ⟨[], [], [], .idle, []⟩

def push (h : HandOff α) (x : α) : HandOff α :=
  { h with
    pushed := h.pushed ++ [(h.pushed.length, x)]
    buffer := h.buffer ++ [(h.pushed.length, x)] }

def read (h : HandOff α) (limit : Nat) (ok : Bool) : HandOff α :=
  if ok ∧ h.stage = .idle ∧ h.buffer.take limit ≠ [] then
    { h with hand := h.buffer.take limit, stage := .read }
  else h

def trim (h : HandOff α) (ok : Bool) : HandOff α :=
  if h.stage = .read then
    { h with
      buffer := if ok then h.buffer.drop h.hand.length else h.buffer
      stage := .trimmed }
  else h

def settle (h : HandOff α) (took : Nat × α → Bool) : HandOff α :=
  if h.stage = .trimmed then
    { h with hand := [], stage := .idle, applied := h.applied ++ h.hand.filter took }
  else h

inductive Act (α : Type) where
  | push (x : α)
  | read (limit : Nat) (ok : Bool)
  | trim (ok : Bool)
  | settle (took : Nat × α → Bool)

def step (h : HandOff α) : Act α → HandOff α
  | .push x => h.push x
  | .read limit ok => h.read limit ok
  | .trim ok => h.trim ok
  | .settle took => h.settle took

def Held (h : HandOff α) : Prop :=
  match h.stage with
  | .idle => h.hand = []
  | .read => h.hand <+: h.buffer
  | .trimmed => h.hand <+: h.buffer ∨ h.hand ++ h.buffer <:+ h.pushed

structure Inv (h : HandOff α) : Prop where
  numbered : h.pushed.map Prod.fst = List.range h.pushed.length
  queued : h.buffer <:+ h.pushed
  genuine : ∀ e ∈ h.applied, e ∈ h.pushed
  held : h.Held

theorem inv_empty : Inv (empty α) := ⟨rfl, List.suffix_rfl, by simp [empty], rfl⟩

theorem Inv.nodup {h : HandOff α} (hi : Inv h) : h.pushed.Nodup := by
  have hn : (h.pushed.map Prod.fst).Nodup := hi.numbered ▸ List.nodup_range
  exact List.Nodup.of_map Prod.fst hn

theorem Inv.hand_pushed {h : HandOff α} (hi : Inv h) : ∀ e ∈ h.hand, e ∈ h.pushed := by
  intro e he
  have hh := hi.held
  cases hs : h.stage with
  | idle =>
    simp only [Held, hs] at hh
    simp [hh] at he
  | read =>
    simp only [Held, hs] at hh
    exact hi.queued.subset (hh.subset he)
  | trimmed =>
    simp only [Held, hs] at hh
    obtain hp | hp := hh
    · exact hi.queued.subset (hp.subset he)
    · exact hp.subset (List.mem_append_left _ he)

theorem inv_push {h : HandOff α} (hi : Inv h) (x : α) : Inv (h.push x) := by
  refine ⟨?_, ?_, ?_, ?_⟩
  · simp [push, hi.numbered, List.range_succ]
  · obtain ⟨t, ht⟩ := hi.queued
    exact ⟨t, by simp [push, ← ht]⟩
  · exact fun e he => List.mem_append_left _ (hi.genuine e he)
  · have hh := hi.held
    cases hs : h.stage with
    | idle =>
      simp only [Held, hs] at hh
      simpa only [Held, push, hs] using hh
    | read =>
      simp only [Held, hs] at hh
      simpa only [Held, push, hs] using hh.trans (List.prefix_append _ _)
    | trimmed =>
      simp only [Held, hs] at hh
      simp only [Held, push, hs]
      obtain hp | hp := hh
      · exact .inl (hp.trans (List.prefix_append _ _))
      · obtain ⟨t, ht⟩ := hp
        exact .inr ⟨t, by rw [← ht]; simp⟩

theorem inv_read {h : HandOff α} (hi : Inv h) (limit : Nat) (ok : Bool) :
    Inv (h.read limit ok) := by
  rw [read]
  split
  · exact ⟨hi.numbered, hi.queued, hi.genuine, List.take_prefix _ _⟩
  · exact hi

theorem hand_append_drop {h : HandOff α} (hp : h.hand <+: h.buffer) :
    h.buffer = h.hand ++ h.buffer.drop h.hand.length := by
  obtain ⟨rest, hr⟩ := hp
  rw [← hr, List.drop_left]

theorem inv_trim {h : HandOff α} (hi : Inv h) (ok : Bool) : Inv (h.trim ok) := by
  rw [trim]
  split
  · rename_i hs
    have hp : h.hand <+: h.buffer := by simpa only [Held, hs] using hi.held
    cases ok with
    | false => exact ⟨hi.numbered, hi.queued, hi.genuine, .inl hp⟩
    | true =>
      refine ⟨hi.numbered, (List.drop_suffix _ _).trans hi.queued, hi.genuine, .inr ?_⟩
      change h.hand ++ h.buffer.drop h.hand.length <:+ h.pushed
      rw [← hand_append_drop hp]
      exact hi.queued
  · exact hi

theorem applied_settle {h : HandOff α} (hs : h.stage = .trimmed) (took : Nat × α → Bool) :
    (h.settle took).applied = h.applied ++ h.hand.filter took := by
  simp [settle, hs]

theorem inv_settle {h : HandOff α} (hi : Inv h) (took : Nat × α → Bool) :
    Inv (h.settle took) := by
  rw [settle]
  split
  · refine ⟨hi.numbered, hi.queued, ?_, rfl⟩
    intro e he
    obtain he | he := List.mem_append.mp he
    · exact hi.genuine e he
    · exact hi.hand_pushed e (List.mem_of_mem_filter he)
  · exact hi

theorem inv_step {h : HandOff α} (hi : Inv h) (a : Act α) : Inv (step h a) := by
  cases a with
  | push x => exact inv_push hi x
  | read limit ok => exact inv_read hi limit ok
  | trim ok => exact inv_trim hi ok
  | settle took => exact inv_settle hi took

section Lossless

variable (work : α → Bool)

/-- Between two rounds every element that carries work is still in the list or
has taken effect. -/
def Lossless (h : HandOff α) : Prop :=
  h.stage = .idle → ∀ e ∈ h.pushed, work e.2 = true → e ∈ h.buffer ∨ e ∈ h.applied

def Accounted (h : HandOff α) : Prop :=
  ∀ e ∈ h.pushed, work e.2 = true → e ∈ h.buffer ∨ e ∈ h.hand ∨ e ∈ h.applied

/-- What a round may leave undone: elements that were never removed, and
elements that an earlier round brought into effect. -/
def Covered (h : HandOff α) : Act α → Prop
  | .settle took => h.stage = .trimmed →
      ∀ e ∈ h.hand, work e.2 = true → took e = true ∨ e ∈ h.buffer ∨ e ∈ h.applied
  | _ => True

theorem accounted_push {h : HandOff α} (ha : Accounted work h) (x : α) :
    Accounted work (h.push x) := by
  intro e he hw
  obtain he | he := List.mem_append.mp he
  · obtain hb | hh := ha e he hw
    · exact .inl (List.mem_append_left _ hb)
    · exact .inr hh
  · exact .inl (List.mem_append_right _ he)

theorem accounted_read {h : HandOff α} (hi : Inv h) (ha : Accounted work h) (limit : Nat)
    (ok : Bool) : Accounted work (h.read limit ok) := by
  rw [read]
  split
  · rename_i hr
    intro e he hw
    obtain hb | hh | hd := ha e he hw
    · exact .inl hb
    · have hn : h.hand = [] := by simpa only [Held, hr.2.1] using hi.held
      simp [hn] at hh
    · exact .inr (.inr hd)
  · exact ha

theorem accounted_trim {h : HandOff α} (hi : Inv h) (ha : Accounted work h) (ok : Bool) :
    Accounted work (h.trim ok) := by
  rw [trim]
  split
  · rename_i hs
    have hp : h.hand <+: h.buffer := by simpa only [Held, hs] using hi.held
    cases ok with
    | false => exact ha
    | true =>
      intro e he hw
      obtain hb | hh | hd := ha e he hw
      · rw [hand_append_drop hp] at hb
        obtain hb | hb := List.mem_append.mp hb
        · exact .inr (.inl hb)
        · exact .inl hb
      · exact .inr (.inl hh)
      · exact .inr (.inr hd)
  · exact ha

theorem accounted_settle {h : HandOff α} (hi : Inv h) (ha : Accounted work h)
    (took : Nat × α → Bool) :
    Accounted work (h.settle took) ↔ Covered work h (.settle took) := by
  by_cases hs : h.stage = .trimmed
  · simp only [settle, hs, if_true, Accounted, Covered, forall_const, List.not_mem_nil, false_or,
      List.mem_append, List.mem_filter]
    constructor
    · intro hn e he hw
      obtain hb | hd | ht := hn e (hi.hand_pushed e he) hw
      · exact .inr (.inl hb)
      · exact .inr (.inr hd)
      · exact .inl ht.2
    · intro hc e he hw
      obtain hb | hh | hd := ha e he hw
      · exact .inl hb
      · obtain ht | hb | hd := hc e hh hw
        · exact .inr (.inr ⟨hh, ht⟩)
        · exact .inl hb
        · exact .inr (.inl hd)
      · exact .inr (.inl hd)
  · simp only [settle, hs, if_false, Covered, false_implies, iff_true]
    exact ha

theorem accounted_step {h : HandOff α} (hi : Inv h) (ha : Accounted work h) (a : Act α) :
    Accounted work (step h a) ↔ Covered work h a := by
  cases a with
  | push x => exact iff_of_true (accounted_push work ha x) trivial
  | read limit ok => exact iff_of_true (accounted_read work hi ha limit ok) trivial
  | trim ok => exact iff_of_true (accounted_trim work hi ha ok) trivial
  | settle took => exact accounted_settle work hi ha took

theorem Accounted.lossless {h : HandOff α} (hi : Inv h) (ha : Accounted work h) :
    Lossless work h := by
  intro hs e he hw
  have hn : h.hand = [] := by simpa only [Held, hs] using hi.held
  obtain hb | hh | hd := ha e he hw
  · exact .inl hb
  · simp [hn] at hh
  · exact .inr hd

theorem covered_of_lossless {h : HandOff α} (hi : Inv h) (a : Act α)
    (hl : Lossless work (step h a)) : Covered work h a := by
  cases a with
  | settle took =>
    intro hs e he hw
    simp only [step, settle, hs, if_true, Lossless, forall_const, List.mem_append,
      List.mem_filter] at hl
    obtain hb | hd | ht := hl e (hi.hand_pushed e he) hw
    · exact .inr (.inl hb)
    · exact .inr (.inr hd)
    · exact .inl ht.2
  | push x => trivial
  | read limit ok => trivial
  | trim ok => trivial

end Lossless

section Once

/-- What has taken effect is gone from the list and from the consumer's hand. -/
structure Cleared (h : HandOff α) : Prop where
  once : h.applied.Nodup
  gone : ∀ e ∈ h.applied, e ∉ h.buffer ∧ e ∉ h.hand

/-- Only elements that were removed before take effect. -/
def Removed (h : HandOff α) : Act α → Prop
  | .settle took => h.stage = .trimmed → ∀ e ∈ h.hand, took e = true → e ∉ h.buffer
  | _ => True

theorem Inv.hand_nodup {h : HandOff α} (hi : Inv h) : h.hand.Nodup := by
  have hh := hi.held
  cases hs : h.stage with
  | idle =>
    simp only [Held, hs] at hh
    simp [hh]
  | read =>
    simp only [Held, hs] at hh
    exact (hh.sublist.trans hi.queued.sublist).nodup hi.nodup
  | trimmed =>
    simp only [Held, hs] at hh
    obtain hp | hp := hh
    · exact (hp.sublist.trans hi.queued.sublist).nodup hi.nodup
    · exact ((List.sublist_append_left _ _).trans hp.sublist).nodup hi.nodup

theorem Inv.next_fresh {h : HandOff α} (hi : Inv h) (x : α) :
    (h.pushed.length, x) ∉ h.pushed := by
  intro hm
  have hr : h.pushed.length ∈ h.pushed.map Prod.fst := List.mem_map_of_mem hm
  rw [hi.numbered] at hr
  exact absurd (List.mem_range.mp hr) (lt_irrefl _)

theorem cleared_step {h : HandOff α} (hi : Inv h) (hc : Cleared h) (a : Act α)
    (hr : Removed h a) : Cleared (step h a) := by
  cases a with
  | push x =>
    refine ⟨hc.once, fun e he => ⟨?_, (hc.gone e he).2⟩⟩
    intro hm
    obtain hm | hm := List.mem_append.mp hm
    · exact (hc.gone e he).1 hm
    · rw [List.mem_singleton.mp hm] at he
      exact hi.next_fresh x (hi.genuine _ he)
  | read limit ok =>
    simp only [step, read]
    split
    · exact ⟨hc.once, fun e he =>
        ⟨(hc.gone e he).1, fun hm => (hc.gone e he).1 (List.mem_of_mem_take hm)⟩⟩
    · exact hc
  | trim ok =>
    simp only [step, trim]
    split
    · refine ⟨hc.once, fun e he => ⟨?_, (hc.gone e he).2⟩⟩
      cases ok with
      | false => exact (hc.gone e he).1
      | true => exact fun hm => (hc.gone e he).1 (List.mem_of_mem_drop hm)
    · exact hc
  | settle took =>
    simp only [step, settle]
    split
    · rename_i hs
      refine ⟨?_, ?_⟩
      · refine List.nodup_append.mpr ⟨hc.once, hi.hand_nodup.filter _, ?_⟩
        rintro e he f hf rfl
        exact (hc.gone e he).2 (List.mem_of_mem_filter hf)
      · intro e he
        refine ⟨?_, List.not_mem_nil⟩
        obtain he | he := List.mem_append.mp he
        · exact (hc.gone e he).1
        · obtain ⟨hm, ht⟩ := List.mem_filter.mp he
          exact hr hs e hm ht
    · exact hc

/-- A removal succeeds unless what is in hand carries no work. -/
def TrimTakes (work : α → Bool) (h : HandOff α) : Act α → Prop
  | .trim ok => h.stage = .read → ok = true ∨ ∀ e ∈ h.hand, work e.2 = false
  | _ => True

/-- After the removal no element in hand that carries work is in the list. -/
def Apart (work : α → Bool) (h : HandOff α) : Prop :=
  h.stage = .trimmed → ∀ e ∈ h.hand, work e.2 = true → e ∉ h.buffer

theorem apart_step {work : α → Bool} {h : HandOff α} (hi : Inv h) (hp : Apart work h) (a : Act α)
    (ht : TrimTakes work h a) : Apart work (step h a) := by
  cases a with
  | push x =>
    intro hs e he hw hb
    obtain hb | hb := List.mem_append.mp hb
    · exact hp hs e he hw hb
    · rw [List.mem_singleton.mp hb] at he
      exact hi.next_fresh x (hi.hand_pushed _ he)
  | read limit ok =>
    simp only [step, read]
    split
    · intro hs
      cases hs
    · exact hp
  | trim ok =>
    simp only [step, trim]
    split
    · rename_i hs
      have hpre : h.hand <+: h.buffer := by simpa only [Held, hs] using hi.held
      intro _ e he hw hb
      obtain rfl | hidle := ht hs
      · have hnd : (h.hand ++ h.buffer.drop h.hand.length).Nodup := by
          rw [← hand_append_drop hpre]
          exact hi.queued.sublist.nodup hi.nodup
        exact (List.nodup_append.mp hnd).2.2 e he e hb rfl
      · rw [hidle e he] at hw
        cases hw
    · exact hp
  | settle took =>
    simp only [step, settle]
    split
    · intro hs
      cases hs
    · exact hp

/-- Once every element that carries work has taken effect, the effects of all
elements are those of the applied ones. -/
theorem sum_applied {M : Type} [AddCommMonoid M] {h : HandOff α} (hi : Inv h)
    (hnd : h.applied.Nodup) {work : α → Bool}
    (hall : ∀ e ∈ h.pushed, work e.2 = true → e ∈ h.applied) (φ : α → M)
    (hidle : ∀ x, work x = false → φ x = 0) :
    (h.applied.map (fun e => φ e.2)).sum = (h.pushed.map (fun e => φ e.2)).sum := by
  have hwork : ∀ l : List (Nat × α), (l.map (fun e => φ e.2)).sum =
      ((l.filter (fun e => work e.2)).map (fun e => φ e.2)).sum := by
    intro l
    induction l with
    | nil => rfl
    | cons e l ih =>
      cases hw : work e.2 with
      | false => simpa [hw, hidle e.2 hw] using ih
      | true => simp [hw, ih]
  have hperm : (h.applied.filter (fun e => work e.2)).Perm (h.pushed.filter (fun e => work e.2)) := by
    apply (List.perm_ext_iff_of_nodup (hnd.filter _) (hi.nodup.filter _)).mpr
    intro e
    simp only [List.mem_filter]
    exact ⟨fun he => ⟨hi.genuine e he.1, he.2⟩, fun he => ⟨hall e he.1 he.2, he.2⟩⟩
  rw [hwork, hwork h.pushed]
  exact (hperm.map _).sum_eq

def Act.pushes : Act α → List α
  | .push x => [x]
  | _ => []

theorem pushed_step (h : HandOff α) (a : Act α) :
    (step h a).pushed.map Prod.snd = h.pushed.map Prod.snd ++ a.pushes := by
  cases a with
  | push x => simp [step, push, Act.pushes]
  | read limit ok =>
    simp only [step, read, Act.pushes, List.append_nil]
    split <;> rfl
  | trim ok =>
    simp only [step, trim, Act.pushes, List.append_nil]
    split <;> rfl
  | settle took =>
    simp only [step, settle, Act.pushes, List.append_nil]
    split <;> rfl

end Once

section Batches

/-- The batch a step takes in hand. -/
def batch (h : HandOff α) : Act α → List (List (Nat × α))
  | .read limit ok =>
      if ok ∧ h.stage = .idle ∧ h.buffer.take limit ≠ [] then [h.buffer.take limit] else []
  | _ => []

/-- The elements of the list that no read has taken: between a read and the
removal the batch still heads the list. -/
def unread (h : HandOff α) : List (Nat × α) :=
  if h.stage = .read then h.buffer.drop h.hand.length else h.buffer

def Removes : Act α → Prop
  | .trim ok => ok = true
  | _ => True

theorem unread_push {h : HandOff α} (hi : Inv h) (x : α) :
    (h.push x).unread = h.unread ++ [(h.pushed.length, x)] := by
  by_cases hs : h.stage = .read
  · have hp : h.hand <+: h.buffer := by simpa only [Held, hs] using hi.held
    simp [unread, push, hs, List.drop_append_of_le_length hp.length_le]
  · simp [unread, push, hs]

theorem unread_read (h : HandOff α) (limit : Nat) (ok : Bool) :
    (h.batch (.read limit ok)).flatten ++ (h.read limit ok).unread = h.unread := by
  rw [batch, read]
  by_cases hr : ok ∧ h.stage = .idle ∧ h.buffer.take limit ≠ []
  · have hdrop : h.buffer.drop (min limit h.buffer.length) = h.buffer.drop limit := by
      obtain hle | hle := Nat.le_total limit h.buffer.length
      · rw [Nat.min_eq_left hle]
      · rw [Nat.min_eq_right hle, List.drop_length, List.drop_of_length_le hle]
    rw [if_pos hr, if_pos hr]
    simp [unread, hdrop, hr.2.1]
  · rw [if_neg hr, if_neg hr, List.flatten_nil, List.nil_append]

theorem unread_trim {h : HandOff α} {ok : Bool} (hok : ok = true) : (h.trim ok).unread = h.unread := by
  by_cases hs : h.stage = .read <;> simp [trim, unread, hs, hok]

theorem unread_settle (h : HandOff α) (took : Nat × α → Bool) :
    (h.settle took).unread = h.unread := by
  by_cases hs : h.stage = .trimmed <;> simp [settle, unread, hs]

/-- The batches read so far and what is unread make up what was pushed. -/
theorem order_step {h : HandOff α} (hi : Inv h) {batches : List (List (Nat × α))}
    (ho : batches.flatten ++ h.unread = h.pushed) (a : Act α) (ha : Removes a) :
    (batches ++ h.batch a).flatten ++ (step h a).unread = (step h a).pushed := by
  rw [List.flatten_append, List.append_assoc]
  cases a with
  | push x =>
    change batches.flatten ++ (h.push x).unread = h.pushed ++ [(h.pushed.length, x)]
    rw [unread_push hi, ← List.append_assoc, ho]
  | read limit ok =>
    have hpushed : (h.read limit ok).pushed = h.pushed := by
      rw [read]
      split <;> rfl
    rw [step, unread_read, hpushed, ho]
  | trim ok =>
    have hpushed : (h.trim ok).pushed = h.pushed := by
      rw [trim]
      split <;> rfl
    change batches.flatten ++ (h.trim ok).unread = (h.trim ok).pushed
    rw [unread_trim ha, hpushed, ho]
  | settle took =>
    have hpushed : (h.settle took).pushed = h.pushed := by
      rw [settle]
      split <;> rfl
    change batches.flatten ++ (h.settle took).unread = (h.settle took).pushed
    rw [unread_settle, hpushed, ho]

/-- Every element that was pushed is in exactly one batch or still unread, and
the batches take them in the order of the pushes. -/
structure ReadOnce (pushes : List α) (batches : List (List (Nat × α))) (h : HandOff α) : Prop where
  pushed : h.pushed.map Prod.snd = pushes
  order : batches.flatten ++ h.unread = h.pushed
  once : ∀ e ∈ h.pushed, (e ∈ h.unread ∧ ∀ b ∈ batches, e ∉ b) ∨
    (e ∉ h.unread ∧ ∃! i : Nat, ∃ b, batches[i]? = some b ∧ e ∈ b)

theorem exists_unique_batch {batches : List (List (Nat × α))} (hnd : batches.flatten.Nodup)
    {e : Nat × α} (he : e ∈ batches.flatten) :
    ∃! i : Nat, ∃ b, batches[i]? = some b ∧ e ∈ b := by
  induction batches with
  | nil => cases he
  | cons b batches ih =>
    rw [List.flatten_cons] at hnd he
    obtain ⟨-, hrest, hapart⟩ := List.nodup_append.mp hnd
    by_cases hb : e ∈ b
    · refine ⟨0, ⟨b, rfl, hb⟩, ?_⟩
      rintro (_ | i) ⟨c, hc, hec⟩
      · rfl
      · have hmem : c ∈ batches := List.mem_of_getElem? hc
        exact absurd rfl (hapart e hb e (List.mem_flatten_of_mem hmem hec))
    · have htail : e ∈ batches.flatten := (List.mem_append.mp he).resolve_left hb
      obtain ⟨i, ⟨c, hc, hec⟩, huniq⟩ := ih hrest htail
      refine ⟨i + 1, ⟨c, hc, hec⟩, ?_⟩
      rintro (_ | j) ⟨d, hd, hed⟩
      · cases hd
        exact absurd hed hb
      · rw [huniq j ⟨d, hd, hed⟩]

theorem readOnce_of_order {h : HandOff α} (hi : Inv h) {pushes : List α}
    {batches : List (List (Nat × α))} (hp : h.pushed.map Prod.snd = pushes)
    (ho : batches.flatten ++ h.unread = h.pushed) : ReadOnce pushes batches h where
  pushed := hp
  order := ho
  once e he := by
    have hnd := hi.nodup
    rw [← ho] at hnd he
    obtain ⟨hflat, -, hapart⟩ := List.nodup_append.mp hnd
    obtain hb | hu := List.mem_append.mp he
    · exact .inr ⟨fun hu => hapart e hb e hu rfl, exists_unique_batch hflat hb⟩
    · refine .inl ⟨hu, fun b hb heb => ?_⟩
      exact hapart e (List.mem_flatten_of_mem hb heb) e hu rfl

end Batches

section Observed

open Runs

variable {S A : Type} {sys : S → A → S} {proj : S → HandOff α} {act : S → A → Option (Act α)}

theorem always_inv (hr : Refines sys step proj act) {s : S} (h0 : proj s = empty α)
    (as : List A) : Always sys (fun t => Inv (proj t)) s as := by
  have hi : Inv (proj s) := by rw [h0]; exact inv_empty
  exact hr.always hi (fun _ b hi => inv_step hi b) as

theorem lossless_iff (hr : Refines sys step proj act) (work : α → Bool) {s : S}
    (h0 : proj s = empty α) (as : List A) :
    Always sys (fun t => Lossless work (proj t)) s as ↔
      Guarded sys (fun t a => ∀ b, act t a = some b → Covered work (proj t) b) s as := by
  have hinv := always_inv hr h0 as
  constructor
  · intro hl pre a hp b hb
    have hnext := hl _ hp
    rw [run_concat, hr, hb] at hnext
    exact covered_of_lossless work (hinv pre (prefix_of_concat hp)) b hnext
  · intro hg pre hp
    suffices ha : Accounted work (proj (run sys s pre)) from ha.lossless work (hinv pre hp)
    refine prefix_induction (Q := fun p => Accounted work (proj (run sys s p))) ?_ ?_ pre hp
    · simp [Accounted, h0, empty]
    · intro p a hpa ha
      have hi := hinv p (prefix_of_concat hpa)
      rw [run_concat, hr]
      cases hb : act (run sys s p) a with
      | none => exact ha
      | some b => exact (accounted_step work hi ha b).mpr (hg p a hpa b hb)

/-- Every element takes effect at most once in a run whose removals succeed. -/
theorem once_of_trimmed (hr : Refines sys step proj act) (work : α → Bool)
    (hwork : ∀ t a took, act t a = some (.settle took) → ∀ e, took e = true → work e.2 = true)
    {s : S} (h0 : proj s = empty α) {as : List A}
    (hg : Guarded sys (fun t a => ∀ b, act t a = some b → TrimTakes work (proj t) b) s as) :
    Always sys (fun t => (proj t).applied.Nodup) s as := by
  have hinv := always_inv hr h0 as
  intro pre hp
  suffices hc : Cleared (proj (run sys s pre)) ∧ Apart work (proj (run sys s pre)) from hc.1.once
  refine prefix_induction (Q := fun p => Cleared (proj (run sys s p)) ∧
    Apart work (proj (run sys s p))) ?_ ?_ pre hp
  · simp only [run_nil, h0]
    exact ⟨⟨List.nodup_nil, by simp [empty]⟩, by simp [Apart, empty]⟩
  · rintro p a hpa ⟨hc, ha⟩
    have hi := hinv p (prefix_of_concat hpa)
    rw [run_concat, hr]
    cases hb : act (run sys s p) a with
    | none => exact ⟨hc, ha⟩
    | some b =>
      refine ⟨cleared_step hi hc b ?_, apart_step hi ha b (hg p a hpa b hb)⟩
      cases b with
      | settle took => exact fun hs e he ht => ha hs e he (hwork _ _ took hb e ht)
      | push x => trivial
      | read limit ok => trivial
      | trim ok => trivial

/-- In a run whose removals succeed the batches read so far and the list hold
everything that was pushed, once. -/
theorem readOnce (hr : Refines sys step proj act) {s : S} (h0 : proj s = empty α) {as : List A}
    (hg : Guarded sys (fun t a => ∀ b, act t a = some b → Removes b) s as) :
    ∀ pre, pre <+: as →
      ReadOnce (expand sys (fun t a => (act t a).elim [] Act.pushes) s pre)
        (expand sys (fun t a => (act t a).elim [] (batch (proj t))) s pre)
        (proj (run sys s pre)) := by
  have hinv := always_inv hr h0 as
  refine prefix_induction (readOnce_of_order (by simpa [h0] using inv_empty) ?_ ?_) ?_
  · simp [expand, h0, empty]
  · simp [expand, h0, empty, unread]
  · intro pre a hp hread
    have hi := hinv pre (prefix_of_concat hp)
    apply readOnce_of_order (hinv _ hp)
    · rw [expand_concat, run_concat, hr]
      cases hb : act (run sys s pre) a with
      | none => simpa using hread.pushed
      | some b =>
        change (step _ b).pushed.map Prod.snd = _ ++ b.pushes
        rw [pushed_step, hread.pushed]
    · rw [expand_concat, run_concat, hr]
      cases hb : act (run sys s pre) a with
      | none => simpa using hread.order
      | some b => exact order_step hi hread.order b (hg pre a hp b hb)

end Observed

end HandOff

end Lib
