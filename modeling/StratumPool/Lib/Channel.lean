import Mathlib.Data.List.Basic

namespace Lib

/-- A bounded channel with its history. What was sent has been received, was
discarded when the receiver went away, or is still queued, in the order of the
sends. -/
structure Channel (α : Type) where
  capacity : Nat
  queue : List α
  sent : List α
  received : List α
  discarded : List α
  isOpen : Bool
  accounted : sent = received ++ discarded ++ queue
  bounded : queue.length ≤ capacity
  live : isOpen = true → discarded = []

namespace Channel

variable {α : Type}

def empty (α : Type) (capacity : Nat) : Channel α :=
  ⟨capacity, [], [], [], [], true, rfl, Nat.zero_le _, fun _ => rfl⟩

def accepts (c : Channel α) : Bool := c.isOpen && decide (c.queue.length < c.capacity)

/-- Send without waiting: a full or closed channel drops the message. -/
def trySend (c : Channel α) (x : α) : Channel α :=
  if h : c.accepts = true then
    { c with
      queue := c.queue ++ [x]
      sent := c.sent ++ [x]
      accounted := by rw [c.accounted, List.append_assoc]
      bounded := by
        simp only [accepts, Bool.and_eq_true, decide_eq_true_eq] at h
        rw [List.length_append]
        exact h.2 }
  else c

def recv (c : Channel α) : Channel α :=
  match hq : c.queue with
  | [] => c
  | x :: rest =>
      if hopen : c.isOpen then
        { c with
          queue := rest
          received := c.received ++ [x]
          accounted := by rw [c.accounted, hq, c.live hopen]; simp
          bounded := by
            have hb := c.bounded
            rw [hq] at hb
            exact Nat.le_of_succ_le hb }
      else c

/-- The receiver goes away, and what is queued goes with it. -/
def close (c : Channel α) : Channel α :=
  { c with
    queue := []
    discarded := c.discarded ++ c.queue
    isOpen := false
    accounted := by rw [c.accounted]; simp
    bounded := Nat.zero_le _
    live := by simp }

@[simp] theorem sent_trySend (c : Channel α) (x : α) :
    (c.trySend x).sent = c.sent ++ if c.accepts then [x] else [] := by
  rw [trySend]
  split <;> simp_all

@[simp] theorem sent_recv (c : Channel α) : c.recv.sent = c.sent := by
  rw [recv]
  split
  · rfl
  · split <;> rfl

@[simp] theorem sent_close (c : Channel α) : c.close.sent = c.sent := rfl

@[simp] theorem queue_trySend (c : Channel α) (x : α) :
    (c.trySend x).queue = c.queue ++ if c.accepts then [x] else [] := by
  rw [trySend]
  split <;> simp_all

theorem queue_recv {c : Channel α} {x : α} {rest : List α} (hq : c.queue = x :: rest)
    (hopen : c.isOpen = true) : c.recv.queue = rest := by
  rw [recv]
  split
  · rename_i hn
    rw [hq] at hn
    cases hn
  · rename_i y more hc
    rw [hq] at hc
    cases hc
    simp [hopen]

theorem queue_recv_sublist (c : Channel α) : c.recv.queue.Sublist c.queue := by
  rw [recv]
  split
  · exact List.Sublist.refl _
  · rename_i x rest hq
    split
    · change rest.Sublist c.queue
      rw [hq]
      exact List.sublist_cons_self x rest
    · exact List.Sublist.refl _

@[simp] theorem received_trySend (c : Channel α) (x : α) :
    (c.trySend x).received = c.received := by
  rw [trySend]
  split <;> rfl

theorem received_recv (c : Channel α) :
    c.recv.received = c.received ++ (if c.isOpen then c.queue.head? else none).toList := by
  rw [recv]
  split
  · rename_i hq
    simp [hq]
  · rename_i x rest hq
    split
    · simp [hq]
    · simp

/-- What the receiver has or can still get. -/
def kept (c : Channel α) : List α := c.received ++ c.queue

@[simp] theorem kept_trySend (c : Channel α) (x : α) :
    (c.trySend x).kept = c.kept ++ if c.accepts then [x] else [] := by
  rw [trySend]
  split <;> simp_all [kept]

@[simp] theorem kept_recv (c : Channel α) : c.recv.kept = c.kept := by
  rw [recv]
  split
  · rfl
  · rename_i x rest hq
    split
    · simp [kept, hq]
    · rfl

@[simp] theorem kept_close (c : Channel α) : c.close.kept = c.received := by
  simp [kept, close]

/-- Where a list of messages is kept whole, one more message is kept if and
only if the channel accepts it. -/
theorem perm_trySend_iff {l : List α} {c : Channel α} (h : l.Perm c.kept) (x : α) :
    (l ++ [x]).Perm (c.trySend x).kept ↔ c.accepts = true := by
  rw [kept_trySend]
  cases c.accepts with
  | true => exact iff_of_true (h.append_right [x]) rfl
  | false =>
    simp only [Bool.false_eq_true, if_false, List.append_nil, iff_false]
    intro hp
    have hlen := hp.length_eq
    rw [List.length_append, h.length_eq] at hlen
    simp at hlen

theorem perm_close_iff {l : List α} {c : Channel α} (h : l.Perm c.kept) :
    l.Perm c.close.kept ↔ c.queue = [] := by
  rw [kept_close]
  constructor
  · intro hp
    have hlen := h.length_eq.symm.trans hp.length_eq
    rw [kept, List.length_append] at hlen
    exact List.length_eq_zero_iff.mp (by omega)
  · intro hq
    rwa [kept, hq, List.append_nil] at h

end Channel

namespace Broadcast

variable {α : Type}

/-- One receive from a channel that keeps the last `capacity` messages of its
log for receivers that stand at a position of their own. One that has fallen
behind skips to the oldest message kept and gets nothing. -/
def recv (capacity : Nat) (log : List α) (next : Nat) : Nat × Option α :=
  if next + capacity < log.length then (log.length - capacity, none)
  else match log[next]? with
    | none => (next, none)
    | some x => (next + 1, some x)

/-- Nothing to receive, a skip, or the next message. -/
theorem recv_cases {capacity : Nat} (hc : 0 < capacity) {log : List α} {next : Nat}
    (hn : next ≤ log.length) :
    recv capacity log next = (next, none) ∧ next = log.length ∨
      (∃ later, recv capacity log next = (later, none) ∧ next < later ∧ later < log.length) ∨
      ∃ x, recv capacity log next = (next + 1, some x) ∧ log[next]? = some x := by
  rw [recv]
  by_cases hlag : next + capacity < log.length
  · rw [if_pos hlag]
    exact .inr (.inl ⟨log.length - capacity, rfl, by omega, by omega⟩)
  · rw [if_neg hlag]
    cases hx : log[next]? with
    | none =>
      have hend := List.getElem?_eq_none_iff.mp hx
      exact .inl ⟨rfl, by omega⟩
    | some x => exact .inr (.inr ⟨x, rfl, rfl⟩)

/-- What is received was sent. -/
theorem mem_of_recv {capacity : Nat} {log : List α} {next next' : Nat} {x : α}
    (h : recv capacity log next = (next', some x)) : x ∈ log := by
  rw [recv] at h
  split at h
  · cases h
  · cases hx : log[next]? with
    | none =>
      rw [hx] at h
      cases h
    | some y =>
      rw [hx] at h
      cases h
      exact List.mem_of_getElem? hx

end Broadcast

end Lib
