import Mathlib.Data.List.Forall2
import Mathlib.Data.List.Pairwise
import Mathlib.Data.Int.ModEq
import Mathlib.Logic.Relation

/-!
# Go-back-N over lossy channels

One direction of a sliding window protocol with cumulative acknowledgements. The sender has up to
`W` messages in flight and starts again at the oldest one when it likes (`rewind`); the receiver
takes the messages in order and drops every other one. Messages and acknowledgements travel in
order, and any of them can be lost or repeated on the way (`Passes`).

Here the sequence numbers are natural numbers. `Inv.expect_mod` and `Inv.ack_mod` say that a
sender and a receiver that only see them modulo `M` decide the same, for every `M > W`.
-/

namespace GoBackN

variable {α : Type}

/-! ## The line -/

/-- What can become of `l` on the line: some elements are lost, and some come again where they
stand. -/
inductive Passes : List α → List α → Prop where
  | nil : Passes [] []
  | lost (a : α) {l l' : List α} (h : Passes l l') : Passes (a :: l) l'
  | copy (a : α) {l l' : List α} (h : Passes (a :: l) l') : Passes (a :: l) (a :: l')

namespace Passes

theorem keep (a : α) {l l' : List α} (h : Passes l l') : Passes (a :: l) (a :: l') :=
  .copy a (.lost a h)

theorem refl (l : List α) : Passes l l := by
  induction l with
  | nil => exact .nil
  | cons a l ih => exact ih.keep a

theorem of_sublist {l l' : List α} (h : l'.Sublist l) : Passes l l' := by
  induction h with
  | slnil => exact .nil
  | cons a _ ih => exact .lost a ih
  | cons_cons a _ ih => exact ih.keep a

theorem again {l : List α} {i : ℕ} {a : α} (h : l[i]? = some a) : Passes l (l.insertIdx i a) := by
  induction l generalizing i with
  | nil => cases h
  | cons b l ih =>
    cases i with
    | zero =>
      cases h
      exact .copy a (refl _)
    | succ i => exact (ih h).keep b

theorem subset {l l' : List α} (h : Passes l l') {a : α} (ha : a ∈ l') : a ∈ l := by
  induction h with
  | nil => exact ha
  | lost b _ ih => exact List.mem_cons_of_mem b (ih ha)
  | copy b _ ih => exact (List.mem_cons.1 ha).elim (fun e => e ▸ List.mem_cons_self) ih

theorem pairwise {R : α → α → Prop} {l l' : List α} (h : Passes l l') (hR : ∀ a ∈ l, R a a)
    (hl : l.Pairwise R) : l'.Pairwise R := by
  induction h with
  | nil => exact hl
  | lost b _ ih =>
    exact ih (fun a ha => hR a (List.mem_cons_of_mem b ha)) (List.pairwise_cons.1 hl).2
  | copy b h ih =>
    refine List.pairwise_cons.2 ⟨fun a ha => ?_, ih hR hl⟩
    rcases List.mem_cons.1 (h.subset ha) with rfl | ha
    · exact hR a List.mem_cons_self
    · exact (List.pairwise_cons.1 hl).1 a ha

theorem filter (p : α → Bool) {l l' : List α} (h : Passes l l') :
    Passes (l.filter p) (l'.filter p) := by
  induction h with
  | nil => exact .nil
  | lost b _ ih =>
    cases hb : p b with
    | true => rw [List.filter_cons_of_pos hb]; exact .lost b ih
    | false => rwa [List.filter_cons_of_neg (by simp [hb])]
  | copy b _ ih =>
    cases hb : p b with
    | true =>
      rw [List.filter_cons_of_pos hb] at ih ⊢
      rw [List.filter_cons_of_pos hb]
      exact .copy b ih
    | false =>
      have hneg : ∀ l, (b :: l).filter p = l.filter p := fun l =>
        List.filter_cons_of_neg (by simp [hb])
      rw [hneg] at ih ⊢
      rwa [hneg]

theorem forall₂ {β : Type} {R : α → β → Prop} {l l' : List α} {m : List β} (h : Passes l l')
    (hR : List.Forall₂ R l m) : ∃ m', Passes m m' ∧ List.Forall₂ R l' m' := by
  induction h generalizing m with
  | nil =>
    cases hR
    exact ⟨[], .nil, .nil⟩
  | lost a _ ih =>
    obtain ⟨b, m, _, hm, rfl⟩ := List.forall₂_cons_left_iff.1 hR
    obtain ⟨m', hp, hr⟩ := ih hm
    exact ⟨m', .lost b hp, hr⟩
  | copy a _ ih =>
    obtain ⟨m', hp, hr⟩ := ih hR
    obtain ⟨b, m, hab, _, rfl⟩ := List.forall₂_cons_left_iff.1 hR
    exact ⟨b :: m', .copy b hp, .cons hab hr⟩

end Passes

/-! ## The protocol -/

/-- Messages are named by their position in `sent`. -/
structure State (α : Type) where
  /-- Everything that was ever to be sent. -/
  sent : List α
  /-- The sender knows that everything below `base` has arrived. -/
  base : ℕ
  /-- The message to send next. -/
  next : ℕ
  /-- Every message sent so far is below `high`. -/
  high : ℕ
  /-- The message the receiver takes next. -/
  expect : ℕ
  /-- Messages on the way, oldest first. -/
  data : List ℕ
  /-- Acknowledgements on the way, oldest first. -/
  acks : List ℕ

namespace State

def init : State α := ⟨[], 0, 0, 0, 0, [], []⟩

/-- Sent and not known to have arrived. -/
def unacked (s : State α) : List α := (s.sent.drop s.base).take (s.next - s.base)

/-- Still to be sent. -/
def queued (s : State α) : List α := s.sent.drop s.next

def delivered (s : State α) : List α := s.sent.take s.expect

end State

inductive Step (W : ℕ) : State α → State α → Prop where
  | submit (s : State α) (a : α) : Step W s { s with sent := s.sent ++ [a] }
  | send (s : State α) (hw : s.next < s.base + W) (hl : s.next < s.sent.length) :
    Step W s { s with
      next := s.next + 1, high := max s.high (s.next + 1), data := s.data ++ [s.next] }
  | rewind (s : State α) : Step W s { s with next := s.base }
  | take (s : State α) (n : ℕ) (data : List ℕ) (h : s.data = n :: data) :
    Step W s { s with data := data, expect := if n = s.expect then s.expect + 1 else s.expect }
  | ack (s : State α) : Step W s { s with acks := s.acks ++ [s.expect] }
  | takeAck (s : State α) (n : ℕ) (acks : List ℕ) (h : s.acks = n :: acks) :
    Step W s { s with acks := acks, base := if s.base < n ∧ n ≤ s.next then n else s.base }
  | line (s : State α) (data acks : List ℕ) (hd : Passes s.data data) (ha : Passes s.acks acks) :
    Step W s { s with data := data, acks := acks }

/-- What holds in every state. A message on the way is never more than a window away from what the
receiver waits for, from below or from above, and two of them are less than a window apart the
wrong way round. -/
structure Inv (W : ℕ) (s : State α) : Prop where
  base_next : s.base ≤ s.next
  next_high : s.next ≤ s.high
  base_expect : s.base ≤ s.expect
  expect_high : s.expect ≤ s.high
  high_window : s.high ≤ s.base + W
  high_sent : s.high ≤ s.sent.length
  data_high : ∀ n ∈ s.data, n < s.high
  data_expect : ∀ n ∈ s.data, s.expect ≤ n + W
  data_order : s.data.Pairwise (fun m n => m < n + W)
  acks_base : ∀ n ∈ s.acks, s.base ≤ n
  acks_expect : ∀ n ∈ s.acks, n ≤ s.expect
  acks_order : s.acks.Pairwise (· ≤ ·)

variable {W : ℕ}

theorem inv_init : Inv W (State.init : State α) where
  base_next := Nat.le_refl _
  next_high := Nat.le_refl _
  base_expect := Nat.le_refl _
  expect_high := Nat.le_refl _
  high_window := Nat.zero_le _
  high_sent := Nat.le_refl _
  data_high := by simp [State.init]
  data_expect := by simp [State.init]
  data_order := List.Pairwise.nil
  acks_base := by simp [State.init]
  acks_expect := by simp [State.init]
  acks_order := List.Pairwise.nil

namespace Inv

theorem send {s : State α} (h : Inv W s) (hw : s.next < s.base + W)
    (hl : s.next < s.sent.length) :
    Inv W { s with
      next := s.next + 1, high := max s.high (s.next + 1), data := s.data ++ [s.next] } := by
  have := h.base_next
  have := h.expect_high
  have := h.high_window
  have hhigh := h.high_sent
  constructor <;> dsimp only
  case base_next => omega
  case next_high => omega
  case base_expect => exact h.base_expect
  case expect_high => omega
  case high_window => omega
  case high_sent => omega
  case data_high =>
    intro n hn
    rcases List.mem_append.1 hn with hn | hn
    · have := h.data_high n hn
      omega
    · rw [List.mem_singleton.1 hn]
      omega
  case data_expect =>
    intro n hn
    rcases List.mem_append.1 hn with hn | hn
    · exact h.data_expect n hn
    · rw [List.mem_singleton.1 hn]
      omega
  case data_order =>
    refine List.pairwise_append.2 ⟨h.data_order, List.pairwise_singleton _ _, ?_⟩
    intro m hm n hn
    have := h.data_high m hm
    rw [List.mem_singleton.1 hn]
    omega
  case acks_base => exact h.acks_base
  case acks_expect => exact h.acks_expect
  case acks_order => exact h.acks_order

theorem take {s : State α} (h : Inv W s) {n : ℕ} {data : List ℕ} (hd : s.data = n :: data) :
    Inv W { s with
      data := data, expect := if n = s.expect then s.expect + 1 else s.expect } := by
  have hhigh := h.data_high n (by rw [hd]; exact List.mem_cons_self)
  have hsub : ∀ m ∈ data, m ∈ s.data := fun m hm => by
    rw [hd]
    exact List.mem_cons_of_mem _ hm
  have horder := h.data_order
  rw [hd, List.pairwise_cons] at horder
  have hle : s.expect ≤ (if n = s.expect then s.expect + 1 else s.expect) := by
    split <;> omega
  constructor <;> dsimp only
  case base_next => exact h.base_next
  case next_high => exact h.next_high
  case base_expect => exact h.base_expect.trans hle
  case expect_high =>
    have := h.expect_high
    split <;> omega
  case high_window => exact h.high_window
  case high_sent => exact h.high_sent
  case data_high => exact fun m hm => h.data_high m (hsub m hm)
  case data_expect =>
    intro m hm
    have := h.data_expect m (hsub m hm)
    have := horder.1 m hm
    split <;> omega
  case data_order => exact horder.2
  case acks_base => exact h.acks_base
  case acks_expect => exact fun m hm => (h.acks_expect m hm).trans hle
  case acks_order => exact h.acks_order

theorem takeAck {s : State α} (h : Inv W s) {n : ℕ} {acks : List ℕ} (ha : s.acks = n :: acks) :
    Inv W { s with
      acks := acks, base := if s.base < n ∧ n ≤ s.next then n else s.base } := by
  have hn := h.acks_expect n (by rw [ha]; exact List.mem_cons_self)
  have hsub : ∀ m ∈ acks, m ∈ s.acks := fun m hm => by
    rw [ha]
    exact List.mem_cons_of_mem _ hm
  have horder := h.acks_order
  rw [ha, List.pairwise_cons] at horder
  have hbase := h.base_next
  have hexp := h.base_expect
  have hwin := h.high_window
  constructor <;> dsimp only
  case base_next => split <;> omega
  case next_high => exact h.next_high
  case base_expect => split <;> omega
  case expect_high => exact h.expect_high
  case high_window => split <;> omega
  case high_sent => exact h.high_sent
  case data_high => exact h.data_high
  case data_expect => exact h.data_expect
  case data_order => exact h.data_order
  case acks_base =>
    intro m hm
    have := h.acks_base m (hsub m hm)
    have := horder.1 m hm
    split <;> omega
  case acks_expect => exact fun m hm => h.acks_expect m (hsub m hm)
  case acks_order => exact horder.2

theorem step {s t : State α} (h : Inv W s) (hst : Step W s t) : Inv W t := by
  cases hst with
  | submit a =>
    exact { h with high_sent := by rw [List.length_append]; exact h.high_sent.trans (by omega) }
  | send hw hl => exact h.send hw hl
  | rewind =>
    exact { h with
      base_next := Nat.le_refl _
      next_high := h.base_next.trans h.next_high }
  | take n data hd => exact h.take hd
  | ack =>
    refine { h with acks_base := ?_, acks_expect := ?_, acks_order := ?_ }
    · intro n hn
      rcases List.mem_append.1 hn with hn | hn
      · exact h.acks_base n hn
      · rw [List.mem_singleton.1 hn]
        exact h.base_expect
    · intro n hn
      rcases List.mem_append.1 hn with hn | hn
      · exact h.acks_expect n hn
      · exact (List.mem_singleton.1 hn).le
    · refine List.pairwise_append.2 ⟨h.acks_order, List.pairwise_singleton _ _, ?_⟩
      intro m hm n hn
      rw [List.mem_singleton.1 hn]
      exact h.acks_expect m hm
  | takeAck n acks ha => exact h.takeAck ha
  | line data acks hd ha =>
    -- a window of nothing sends nothing, so there is nothing to repeat
    have hself : ∀ n ∈ s.data, n < n + W := fun n hn => by
      have := h.data_high n hn
      have := h.data_expect n hn
      have := h.high_window
      have := h.base_expect
      omega
    exact { h with
      data_high := fun n hn => h.data_high n (hd.subset hn)
      data_expect := fun n hn => h.data_expect n (hd.subset hn)
      data_order := hd.pairwise hself h.data_order
      acks_base := fun n hn => h.acks_base n (ha.subset hn)
      acks_expect := fun n hn => h.acks_expect n (ha.subset hn)
      acks_order := ha.pairwise (fun n _ => Nat.le_refl n) h.acks_order }

/-! ## Queues

What the steps do to the queues a sender keeps, and to what a receiver has. -/

variable {s : State α}

theorem unacked_append_queued (h : Inv W s) : s.unacked ++ s.queued = s.sent.drop s.base := by
  have hq : s.queued = (s.sent.drop s.base).drop (s.next - s.base) := by
    rw [List.drop_drop, Nat.add_sub_cancel' h.base_next]
    rfl
  rw [hq]
  exact List.take_append_drop _ _

theorem submit_queues (h : Inv W s) (a : α) :
    State.unacked { s with sent := s.sent ++ [a] } = s.unacked ∧
    State.queued { s with sent := s.sent ++ [a] } = s.queued ++ [a] ∧
    State.delivered { s with sent := s.sent ++ [a] } = s.delivered := by
  have h1 := h.base_next
  have h2 := h.next_high
  have h3 := h.high_sent
  have h4 := h.expect_high
  refine ⟨?_, ?_, ?_⟩
  · show ((s.sent ++ [a]).drop s.base).take (s.next - s.base) = _
    rw [List.drop_append_of_le_length (by omega), List.take_append_of_le_length]
    · rfl
    · rw [List.length_drop]
      omega
  · exact List.drop_append_of_le_length (h2.trans h3)
  · exact List.take_append_of_le_length (h4.trans h3)

theorem next_of_queued {a : α} {rest : List α} (hq : s.queued = a :: rest) :
    s.sent[s.next]? = some a := by
  have := congrArg List.head? hq
  rwa [State.queued, List.head?_drop] at this

theorem send_queues (h : Inv W s) {a : α} {rest : List α} (hq : s.queued = a :: rest)
    (data : List ℕ) :
    State.unacked { s with
      next := s.next + 1, high := max s.high (s.next + 1), data := data } = s.unacked ++ [a] ∧
    State.queued { s with
      next := s.next + 1, high := max s.high (s.next + 1), data := data } = rest := by
  have h1 := h.base_next
  constructor
  · show (s.sent.drop s.base).take (s.next + 1 - s.base) = _
    have hget : (s.sent.drop s.base)[s.next - s.base]? = some a := by
      rw [List.getElem?_drop, Nat.add_sub_cancel' h1]
      exact next_of_queued hq
    rw [show s.next + 1 - s.base = s.next - s.base + 1 by omega, List.take_add_one, hget]
    rfl
  · show s.sent.drop (s.next + 1) = rest
    rw [← List.tail_drop]
    show s.queued.tail = rest
    rw [hq]
    rfl

theorem rewind_queues (h : Inv W s) :
    State.unacked { s with next := s.base } = [] ∧
    State.queued { s with next := s.base } = s.unacked ++ s.queued := by
  refine ⟨?_, h.unacked_append_queued.symm⟩
  show (s.sent.drop s.base).take (s.base - s.base) = []
  simp

theorem takeAck_unacked (n : ℕ) (hn : s.base ≤ n) (hn' : n ≤ s.next) (acks : List ℕ) :
    State.unacked { s with acks := acks, base := n } = s.unacked.drop (n - s.base) := by
  show (s.sent.drop n).take (s.next - n) = ((s.sent.drop s.base).take (s.next - s.base)).drop _
  rw [List.drop_take, List.drop_drop, Nat.add_sub_cancel' hn]
  congr 1
  omega

theorem take_delivered {a : α} (ha : s.sent[s.expect]? = some a) (data : List ℕ) :
    State.delivered { s with data := data, expect := s.expect + 1 } = s.delivered ++ [a] := by
  show s.sent.take (s.expect + 1) = _
  rw [List.take_add_one, ha]
  rfl

/-! ## Numbers modulo `M` -/

theorem eq_of_mod {M m n : ℕ} (h : m % M = n % M) (h1 : m < n + M) (h2 : n < m + M) : m = n := by
  rcases Nat.le_total m n with hle | hle
  · have hd := (Nat.modEq_iff_dvd' hle).1 h
    have := Nat.eq_zero_of_dvd_of_lt hd (by omega)
    omega
  · have hd := (Nat.modEq_iff_dvd' hle).1 h.symm
    have := Nat.eq_zero_of_dvd_of_lt hd (by omega)
    omega

/-- The receiver can compare numbers modulo `M`. -/
theorem expect_mod {s : State α} (h : Inv W s) {M : ℕ} (hM : W < M) {n : ℕ} (hn : n ∈ s.data) :
    n % M = s.expect % M ↔ n = s.expect := by
  have := h.data_high n hn
  have := h.data_expect n hn
  have := h.high_window
  have := h.base_expect
  exact ⟨fun e => eq_of_mod e (by omega) (by omega), fun e => by rw [e]⟩

/-- The sender can compare an acknowledgement with its messages modulo `M`. -/
theorem ack_mod {s : State α} (h : Inv W s) {M : ℕ} (hM : W < M) {a : ℕ} (ha : a ∈ s.acks) {n : ℕ}
    (h1 : s.base < n) (h2 : n ≤ s.next) : a % M = n % M ↔ a = n := by
  have := h.acks_base a ha
  have := h.acks_expect a ha
  have := h.expect_high
  have := h.next_high
  have := h.high_window
  exact ⟨fun e => eq_of_mod e (by omega) (by omega), fun e => by rw [e]⟩

end Inv

end GoBackN
