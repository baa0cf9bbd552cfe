import Mathlib.Algebra.GroupWithZero.Nat
import Mathlib.Data.List.Count

set_option autoImplicit false

/-! # A queue with acknowledgements

A broker keeps messages in a queue and hands them to consumers, each over a channel of its own.
A message that is handed out stays unacknowledged until its consumer settles or rejects it, and a
channel with an unacknowledged message gets no other one. When a channel is lost, what it holds goes
back to the front of the queue, and the channel is opened again under a new generation; an answer
to a delivery of an earlier generation does not reach the broker. An answer that names a delivery
which the channel does not hold is a protocol error, on which the broker closes the channel.

No operation loses or copies a message: `placed` counts, for any kind of message, those in the
queue, in hand, settled and dropped, and `taken` counts the deliveries by what became of them.
-/

namespace ErpApi.WorkQueue

variable {μ : Type}

structure Channel (μ : Type) where
  generation : Nat
  /-- The deliveries of this generation; they are numbered from zero. -/
  delivered : Nat
  unacked : Option (Nat × μ)

structure Broker (μ : Type) where
  ready : List μ
  channels : List (Channel μ)
  settled : List μ
  dropped : List μ
  /-- What has gone back to the queue, each time. -/
  requeued : List μ

structure Delivery (μ : Type) where
  channel : Nat
  generation : Nat
  tag : Nat
  message : μ

def Broker.init (n : Nat) : Broker μ where
  ready := []
  channels := List.replicate n ⟨0, 0, none⟩
  settled := []
  dropped := []
  requeued := []

namespace Broker

variable (b : Broker μ)

def publish (m : μ) : Broker μ := { b with ready := b.ready ++ [m] }

/-- The next message goes to a channel that holds none. -/
def deliver (i : Nat) : Option (Delivery μ × Broker μ) :=
  match b.ready, b.channels[i]? with
  | m :: rest, some ch =>
      match ch.unacked with
      | none =>
          some (⟨i, ch.generation, ch.delivered, m⟩,
            { b with
              ready := rest
              channels := b.channels.set i
                ⟨ch.generation, ch.delivered + 1, some (ch.delivered, m)⟩ })
      | some _ => none
  | _, _ => none

/-- The channel is lost and opened again. -/
def lose (i : Nat) : Broker μ :=
  match b.channels[i]? with
  | none => b
  | some ch =>
      let held := (ch.unacked.map Prod.snd).toList
      { b with
        ready := held ++ b.ready
        channels := b.channels.set i ⟨ch.generation + 1, 0, none⟩
        requeued := b.requeued ++ held }

inductive Verdict where
  | ack
  /-- A rejection without requeueing. -/
  | nack
  deriving DecidableEq

/-- The answer to a delivery; it fails on the consumer's side when the channel of the delivery is
gone. -/
def answer (d : Delivery μ) (verdict : Verdict) : Option (Broker μ) :=
  match b.channels[d.channel]? with
  | none => none
  | some ch =>
      if ch.generation ≠ d.generation then none
      else
        match ch.unacked with
        | some (tag, m) =>
            if tag = d.tag then
              some { b with
                channels := b.channels.set d.channel ⟨ch.generation, ch.delivered, none⟩
                settled := if verdict = .ack then b.settled ++ [m] else b.settled
                dropped := if verdict = .nack then b.dropped ++ [m] else b.dropped }
            else some (b.lose d.channel)
        | none => some (b.lose d.channel)

end Broker

/-! ## Counting messages -/

section Count

variable (p : μ → Bool)

/-- Whether the channel holds a message of the kind, as a number. -/
def Channel.held (ch : Channel μ) : Nat := ((ch.unacked.map Prod.snd).toList).countP p

def Broker.held (b : Broker μ) : Nat := (b.channels.map (Channel.held p)).sum

/-- The messages of the kind, wherever they are. -/
def Broker.placed (b : Broker μ) : Nat :=
  b.ready.countP p + b.held p + b.settled.countP p + b.dropped.countP p

/-- The deliveries of messages of the kind. -/
def Broker.taken (b : Broker μ) : Nat :=
  b.held p + b.settled.countP p + b.dropped.countP p + b.requeued.countP p

theorem sum_map_set {α : Type} (f : α → Nat) {xs : List α} {i : Nat} {x : α} (x' : α)
    (h : xs[i]? = some x) : ((xs.set i x').map f).sum + f x = (xs.map f).sum + f x' := by
  induction xs generalizing i with
  | nil => cases h
  | cons y xs ih =>
      cases i with
      | zero =>
          obtain rfl : y = x := by simpa using h
          simp only [List.set_cons_zero, List.map_cons, List.sum_cons]
          omega
      | succ i =>
          have hrest := ih (i := i) (by simpa using h)
          simp only [List.set_cons_succ, List.map_cons, List.sum_cons]
          omega

variable {p} {b b' : Broker μ} {d : Delivery μ} {i : Nat}

theorem Broker.held_init (n : Nat) : (Broker.init n).held p = 0 := by
  unfold Broker.held Broker.init
  induction n with
  | zero => rfl
  | succ n ih =>
      rw [List.replicate_succ, List.map_cons, List.sum_cons]
      exact (Nat.zero_add _).trans ih

theorem Broker.placed_publish (m : μ) :
    (b.publish m).placed p = b.placed p + [m].countP p := by
  have hready : (b.ready ++ [m]).countP p = b.ready.countP p + [m].countP p := List.countP_append
  show (b.ready ++ [m]).countP p + b.held p + b.settled.countP p + b.dropped.countP p = _
  rw [hready, Broker.placed]
  omega

/-- What a delivery does. -/
theorem Broker.deliver_eq_some (h : b.deliver i = some (d, b')) :
    ∃ rest ch, b.ready = d.message :: rest ∧ b.channels[i]? = some ch ∧ ch.unacked = none ∧
      d = ⟨i, ch.generation, ch.delivered, d.message⟩ ∧
      b' = { b with
        ready := rest
        channels := b.channels.set i
          ⟨ch.generation, ch.delivered + 1, some (ch.delivered, d.message)⟩ } := by
  unfold Broker.deliver at h
  split at h
  · rename_i m rest ch hready hchannel
    split at h
    · rename_i hfree
      obtain ⟨hd, hb⟩ := Prod.mk.inj (Option.some.inj h)
      subst hd
      exact ⟨rest, ch, hready, hchannel, hfree, rfl, hb.symm⟩
    · cases h
  · cases h

theorem Broker.held_deliver (h : b.deliver i = some (d, b')) :
    b'.held p = b.held p + [d.message].countP p := by
  obtain ⟨rest, ch, -, hchannel, hfree, -, rfl⟩ := deliver_eq_some h
  have hset := sum_map_set (Channel.held p)
    ⟨ch.generation, ch.delivered + 1, some (ch.delivered, d.message)⟩ hchannel
  have hold : ch.held p = 0 := by
    rw [Channel.held, hfree]
    rfl
  have hnew : Channel.held p ⟨ch.generation, ch.delivered + 1, some (ch.delivered, d.message)⟩ =
      [d.message].countP p := rfl
  unfold Broker.held
  dsimp only
  omega

theorem Broker.placed_deliver (h : b.deliver i = some (d, b')) : b'.placed p = b.placed p := by
  have hheld := held_deliver (p := p) h
  obtain ⟨rest, ch, hready, -, -, -, rfl⟩ := deliver_eq_some h
  have hcount : b.ready.countP p = [d.message].countP p + rest.countP p := by
    rw [hready, ← List.countP_append]
    rfl
  unfold Broker.placed
  dsimp only
  omega

theorem Broker.taken_deliver (h : b.deliver i = some (d, b')) :
    b'.taken p = b.taken p + [d.message].countP p := by
  have hheld := held_deliver (p := p) h
  obtain ⟨rest, ch, -, -, -, -, rfl⟩ := deliver_eq_some h
  unfold Broker.taken
  dsimp only
  omega

/-- A loss moves what the channel holds to the queue. -/
theorem Broker.held_lose (i : Nat) : ∃ held : List μ,
    (b.lose i).ready = held ++ b.ready ∧ (b.lose i).requeued = b.requeued ++ held ∧
      (b.lose i).settled = b.settled ∧ (b.lose i).dropped = b.dropped ∧
      (b.lose i).held p + held.countP p = b.held p := by
  unfold Broker.lose
  cases hchannel : b.channels[i]? with
  | none => exact ⟨[], rfl, (List.append_nil _).symm, rfl, rfl, rfl⟩
  | some ch =>
      refine ⟨(ch.unacked.map Prod.snd).toList, rfl, rfl, rfl, rfl, ?_⟩
      have hset := sum_map_set (Channel.held p) ⟨ch.generation + 1, 0, none⟩ hchannel
      have hnew : Channel.held p ⟨ch.generation + 1, 0, none⟩ = 0 := rfl
      have hold : ch.held p = ((ch.unacked.map Prod.snd).toList).countP p := rfl
      unfold Broker.held
      dsimp only
      omega

theorem Broker.placed_lose (i : Nat) : (b.lose i).placed p = b.placed p := by
  obtain ⟨held, hready, -, hsettled, hdropped, hheld⟩ := held_lose (p := p) (b := b) i
  have hcount : (b.lose i).ready.countP p = held.countP p + b.ready.countP p := by
    rw [hready, List.countP_append]
  unfold Broker.placed
  rw [hsettled, hdropped]
  omega

theorem Broker.taken_lose (i : Nat) : (b.lose i).taken p = b.taken p := by
  obtain ⟨held, -, hrequeued, hsettled, hdropped, hheld⟩ := held_lose (p := p) (b := b) i
  have hcount : (b.lose i).requeued.countP p = b.requeued.countP p + held.countP p := by
    rw [hrequeued, List.countP_append]
  unfold Broker.taken
  rw [hsettled, hdropped]
  omega

/-- The channel of the delivery waits for its answer. -/
def Broker.Holds (b : Broker μ) (d : Delivery μ) : Prop :=
  ∃ ch, b.channels[d.channel]? = some ch ∧ ch.generation = d.generation ∧
    ch.unacked = some (d.tag, d.message)

/-- What an answer does that the channel waits for. -/
theorem Broker.answer_of_holds (verdict : Verdict) (h : b.Holds d) :
    ∃ ch, b.channels[d.channel]? = some ch ∧ ch.generation = d.generation ∧
      ch.unacked = some (d.tag, d.message) ∧
      b.answer d verdict = some { b with
        channels := b.channels.set d.channel ⟨ch.generation, ch.delivered, none⟩
        settled := if verdict = .ack then b.settled ++ [d.message] else b.settled
        dropped := if verdict = .nack then b.dropped ++ [d.message] else b.dropped } := by
  obtain ⟨ch, hchannel, hgeneration, hunacked⟩ := h
  refine ⟨ch, hchannel, hgeneration, hunacked, ?_⟩
  unfold Broker.answer
  rw [hchannel]
  dsimp only
  rw [if_neg (not_not.mpr hgeneration), hunacked]
  dsimp only
  rw [if_pos rfl]

theorem Broker.held_answer {verdict : Verdict} (h : b.Holds d)
    (hanswer : b.answer d verdict = some b') :
    b'.held p + [d.message].countP p = b.held p ∧ b'.ready = b.ready ∧
      b'.requeued = b.requeued ∧
      b'.settled = (if verdict = .ack then b.settled ++ [d.message] else b.settled) ∧
      b'.dropped = if verdict = .nack then b.dropped ++ [d.message] else b.dropped := by
  obtain ⟨ch, hchannel, -, hunacked, heq⟩ := answer_of_holds verdict h
  obtain rfl := Option.some.inj (hanswer.symm.trans heq)
  refine ⟨?_, rfl, rfl, rfl, rfl⟩
  have hset := sum_map_set (Channel.held p) ⟨ch.generation, ch.delivered, none⟩ hchannel
  have hnew : Channel.held p ⟨ch.generation, ch.delivered, none⟩ = 0 := rfl
  have hold : ch.held p = [d.message].countP p := by
    rw [Channel.held, hunacked]
    rfl
  unfold Broker.held
  dsimp only
  omega

theorem Broker.placed_answer {verdict : Verdict} (h : b.Holds d)
    (hanswer : b.answer d verdict = some b') : b'.placed p = b.placed p := by
  obtain ⟨hheld, hready, -, hsettled, hdropped⟩ := held_answer (p := p) h hanswer
  unfold Broker.placed
  rw [hready, hsettled, hdropped]
  cases verdict with
  | ack =>
      have hcount : (b.settled ++ [d.message]).countP p = b.settled.countP p +
          [d.message].countP p := List.countP_append
      simp only [if_true, reduceCtorEq, if_false]
      omega
  | nack =>
      have hcount : (b.dropped ++ [d.message]).countP p = b.dropped.countP p +
          [d.message].countP p := List.countP_append
      simp only [if_true, reduceCtorEq, if_false]
      omega

theorem Broker.taken_answer {verdict : Verdict} (h : b.Holds d)
    (hanswer : b.answer d verdict = some b') : b'.taken p = b.taken p := by
  obtain ⟨hheld, -, hrequeued, hsettled, hdropped⟩ := held_answer (p := p) h hanswer
  unfold Broker.taken
  rw [hrequeued, hsettled, hdropped]
  cases verdict with
  | ack =>
      have hcount : (b.settled ++ [d.message]).countP p = b.settled.countP p +
          [d.message].countP p := List.countP_append
      simp only [if_true, reduceCtorEq, if_false]
      omega
  | nack =>
      have hcount : (b.dropped ++ [d.message]).countP p = b.dropped.countP p +
          [d.message].countP p := List.countP_append
      simp only [if_true, reduceCtorEq, if_false]
      omega

/-- An answer to a delivery of an earlier generation does not arrive. -/
theorem Broker.answer_eq_none (verdict : Verdict) {ch : Channel μ}
    (hchannel : b.channels[d.channel]? = some ch) (h : ch.generation ≠ d.generation) :
    b.answer d verdict = none := by
  unfold Broker.answer
  rw [hchannel]
  exact if_pos h

theorem Broker.holds_deliver (h : b.deliver i = some (d, b')) : b'.Holds d := by
  obtain ⟨rest, ch, -, hchannel, -, hd, rfl⟩ := deliver_eq_some h
  obtain ⟨hlt, -⟩ := List.getElem?_eq_some_iff.mp hchannel
  rw [hd]
  exact ⟨_, List.getElem?_set_self hlt, rfl, rfl⟩

/-- A message that is rejected as soon as it is handed out. -/
theorem Broker.reject_deliver (h : b.deliver i = some (d, b')) : ∃ rest ch,
    b.channels[i]? = some ch ∧ ch.unacked = none ∧
      b'.answer d .nack = some { b with
        ready := rest
        channels := b.channels.set i ⟨ch.generation, ch.delivered + 1, none⟩
        dropped := b.dropped ++ [d.message] } := by
  obtain ⟨ch₁, hchannel₁, -, -, hanswer⟩ := answer_of_holds .nack (holds_deliver h)
  obtain ⟨rest, ch, -, hchannel, hfree, hd, rfl⟩ := deliver_eq_some h
  obtain ⟨hlt, -⟩ := List.getElem?_eq_some_iff.mp hchannel
  refine ⟨rest, ch, hchannel, hfree, hanswer.trans ?_⟩
  have hi : d.channel = i := by rw [hd]
  have hsame : ch₁ = ⟨ch.generation, ch.delivered + 1, some (ch.delivered, d.message)⟩ := by
    dsimp only at hchannel₁
    rw [hi, List.getElem?_set_self hlt] at hchannel₁
    exact (Option.some.inj hchannel₁).symm
  rw [hsame, hi, List.set_set]
  rfl

end Count

/-! ## Channels -/

section Channels

variable {b b' : Broker μ} {d : Delivery μ}

theorem Broker.length_lose (i : Nat) : (b.lose i).channels.length = b.channels.length := by
  unfold Broker.lose
  cases b.channels[i]? with
  | none => rfl
  | some ch => exact List.length_set

theorem Broker.length_deliver {i : Nat} (h : b.deliver i = some (d, b')) :
    b'.channels.length = b.channels.length := by
  obtain ⟨rest, ch, -, -, -, -, rfl⟩ := deliver_eq_some h
  exact List.length_set

theorem Broker.length_answer {verdict : Verdict} (h : b.answer d verdict = some b') :
    b'.channels.length = b.channels.length := by
  unfold Broker.answer at h
  split at h
  · cases h
  · split at h
    · cases h
    · split at h
      · split at h
        · obtain rfl := Option.some.inj h
          exact List.length_set
        · obtain rfl := Option.some.inj h
          exact length_lose _
      · obtain rfl := Option.some.inj h
        exact length_lose _

/-- The number of messages that are handed out and not answered. -/
def Broker.unacked (b : Broker μ) : Nat := b.held fun _ => true

theorem Broker.unacked_le (b : Broker μ) : b.unacked ≤ b.channels.length := by
  have hone : ∀ ch : Channel μ, ch.held (fun _ => true) ≤ 1 := by
    intro ch
    unfold Channel.held
    cases ch.unacked with
    | none => exact Nat.zero_le _
    | some held => exact Nat.le_refl _
  unfold Broker.unacked Broker.held
  induction b.channels with
  | nil => exact Nat.le_refl _
  | cons ch channels ih =>
      rw [List.map_cons, List.sum_cons, List.length_cons]
      have := hone ch
      omega

/-- As long as something is not answered, some channel waits. -/
theorem Broker.exists_unacked (h : 0 < b.unacked) :
    ∃ (i : Nat) (ch : Channel μ) (tag : Nat) (m : μ),
      b.channels[i]? = some ch ∧ ch.unacked = some (tag, m) := by
  by_contra hnone
  have hfree : ∀ ch ∈ b.channels, ch.unacked = none := by
    intro ch hch
    obtain ⟨i, hi⟩ := List.mem_iff_getElem?.mp hch
    cases hunacked : ch.unacked with
    | none => rfl
    | some held => exact absurd ⟨i, ch, held.1, held.2, hi, hunacked⟩ hnone
  have hzero : (b.channels.map (Channel.held fun _ => true)).sum = 0 := by
    have hall : ∀ channels : List (Channel μ), (∀ ch ∈ channels, ch.unacked = none) →
        (channels.map (Channel.held fun _ => true)).sum = 0 := by
      intro channels
      induction channels with
      | nil => exact fun _ => rfl
      | cons ch channels ih =>
          intro hchannels
          have hhead : ch.held (fun _ => true) = 0 := by
            rw [Channel.held, hchannels ch List.mem_cons_self]
            rfl
          rw [List.map_cons, List.sum_cons, hhead,
            ih fun ch' hch' => hchannels ch' (List.mem_cons_of_mem _ hch')]
    exact hall b.channels hfree
  unfold Broker.unacked Broker.held at h
  omega

/-- A channel that is free takes the next message. -/
theorem Broker.exists_delivery (hready : b.ready ≠ []) (hchannels : 0 < b.channels.length)
    (hfree : b.unacked = 0) : ∃ d b', b.deliver 0 = some (d, b') := by
  obtain ⟨m, rest, hcons⟩ := List.exists_cons_of_ne_nil hready
  obtain ⟨ch, channels, hlist⟩ := List.exists_cons_of_length_pos hchannels
  have hnone : ch.unacked = none := by
    cases hunacked : ch.unacked with
    | none => rfl
    | some held =>
        have hhead : ch.held (fun _ => true) = 1 := by
          rw [Channel.held, hunacked]
          rfl
        unfold Broker.unacked Broker.held at hfree
        rw [hlist, List.map_cons, List.sum_cons, hhead] at hfree
        omega
  have hget : b.channels[0]? = some ch := by rw [hlist, List.getElem?_cons_zero]
  have hdeliver : b.deliver 0 = some (⟨0, ch.generation, ch.delivered, m⟩,
      { b with
        ready := rest
        channels := b.channels.set 0
          ⟨ch.generation, ch.delivered + 1, some (ch.delivered, m)⟩ }) := by
    unfold Broker.deliver
    rw [hcons, hget]
    dsimp only
    rw [hnone]
  exact ⟨_, _, hdeliver⟩

end Channels

end ErpApi.WorkQueue
