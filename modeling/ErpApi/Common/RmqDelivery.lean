import ErpApi.Basic.Interleaving
import ErpApi.Basic.SequentialRun
import ErpApi.Basic.WorkQueue

set_option autoImplicit false

/-! # Messages between services

A service takes its messages from a RabbitMQ queue. The server is configured with `noAck: false` and
`prefetchCount: 1`, so that a message stays with the broker until it is acknowledged and a channel
holds one at a time. NestJS itself rejects a message that no handler matches and acknowledges none;
that is done by `RmqAckInterceptor`, which every controller with message handlers uses. It
acknowledges when the promise of the handler is resolved and when it is rejected.

An acknowledgement on a channel that has been lost in the meantime throws. After a resolved promise
the interceptor then tries again in `catchError` and the caller gets an error, although the handler
has done its work; the message is back in the queue and will be handled again.

Whatever is published, however deliveries, handlers and losses of channels interleave, no message
is lost, and one is handled again exactly as often as a channel was lost that held it
(`handled_once_and_for_each_loss`). The queue can always be worked off (`drains`). Without the
interceptor a service stops after one message for each channel (`blocked_without_acks`).
-/

namespace ErpApi.Rmq

open WorkQueue

variable {μ : Type}

/-- How the promise of a handler ends. -/
inductive Outcome where
  | resolved
  | rejected
  deriving DecidableEq

/-- What the caller is sent. -/
inductive Reply where
  | response
  | error
  deriving DecidableEq

/-- The branch `catchError`: a throw of the acknowledgement takes the place of the error. -/
def catchError (b : Broker μ) (d : Delivery μ) : Broker μ × Reply :=
  match b.answer d .ack with
  | some b' => (b', .error)
  | none => (b, .error)

/-- The interceptor `RmqAckInterceptor`. -/
def intercept (b : Broker μ) (d : Delivery μ) : Outcome → Broker μ × Reply
  | .resolved =>
      match b.answer d .ack with
      | some b' => (b', .response)
      | none => catchError b d
  | .rejected => catchError b d

/-- The handler of a delivery, running or ended with a reply. -/
structure Run (μ : Type) where
  delivery : Delivery μ
  reply : Option Reply

structure Service (μ : Type) where
  /-- A handler matches the message. -/
  handles : μ → Bool
  /-- The controllers use the interceptor. -/
  acknowledges : Bool

structure State (μ : Type) where
  broker : Broker μ
  runs : List (Run μ)
  published : List μ

inductive Event (μ : Type) where
  | publish (m : μ)
  | deliver (channel : Nat)
  /-- The promise of a handler ends. -/
  | finish (run : Nat) (outcome : Outcome)
  | lose (channel : Nat)

/-- Nothing is published, and the consumers of the service have opened their channels. -/
def init (channels : Nat) : State μ := ⟨Broker.init channels, [], []⟩

def settle (service : Service μ) (b : Broker μ) (d : Delivery μ) (outcome : Outcome) :
    Broker μ × Reply :=
  if service.acknowledges then intercept b d outcome
  else
    match outcome with
    | .resolved => (b, .response)
    | .rejected => (b, .error)

def step (service : Service μ) (s : State μ) : Event μ → State μ
  | .publish m => { s with broker := s.broker.publish m, published := s.published ++ [m] }
  | .deliver channel =>
      match s.broker.deliver channel with
      | none => s
      | some (d, b) =>
          if service.handles d.message then { s with broker := b, runs := s.runs ++ [⟨d, none⟩] }
          else { s with broker := (b.answer d .nack).getD b }
  | .finish run outcome =>
      match s.runs[run]? with
      | none => s
      | some r =>
          if r.reply.isSome then s
          else
            let (b, reply) := settle service s.broker r.delivery outcome
            { s with broker := b, runs := s.runs.set run { r with reply := some reply } }
  | .lose channel => { s with broker := s.broker.lose channel }

def run (service : Service μ) (channels : Nat) (events : List (Event μ)) : State μ :=
  Sequential.run (step service) (init channels) events

/-! ## Where the messages are -/

def Delivery.key (d : Delivery μ) : Nat × Nat × Nat := (d.channel, d.generation, d.tag)

structure Inv (service : Service μ) (s : State μ) : Prop where
  placed : ∀ p, s.published.countP p = s.broker.placed p
  taken : ∀ p, (s.runs.map (·.delivery.message)).countP p + s.broker.dropped.countP p =
    s.broker.taken p
  /-- A channel holds what some handler is working on. -/
  held : ∀ i ch tag m, s.broker.channels[i]? = some ch → ch.unacked = some (tag, m) →
    ∃ r ∈ s.runs, r.delivery = ⟨i, ch.generation, tag, m⟩ ∧ r.reply = none
  /-- A handler that is working has its channel wait for it, unless the channel was lost. -/
  waiting : ∀ r ∈ s.runs, r.reply = none → ∀ ch,
    s.broker.channels[r.delivery.channel]? = some ch → ch.generation = r.delivery.generation →
    ch.unacked = some (r.delivery.tag, r.delivery.message)
  fresh : ∀ r ∈ s.runs, ∃ ch, s.broker.channels[r.delivery.channel]? = some ch ∧
    r.delivery.generation ≤ ch.generation ∧
    (r.delivery.generation = ch.generation → r.delivery.tag < ch.delivered)
  distinct : (s.runs.map fun r => Delivery.key r.delivery).Nodup
  settled : ∀ m ∈ s.broker.settled, ∃ r ∈ s.runs, r.delivery.message = m ∧ r.reply ≠ none
  dropped : ∀ m ∈ s.broker.dropped, service.handles m = false
  handled : ∀ r ∈ s.runs, service.handles r.delivery.message = true

section Step

variable {service : Service μ} {s : State μ}

theorem inv_init (service : Service μ) (channels : Nat) : Inv service (init channels) where
  placed p := by
    show 0 = 0 + (Broker.init channels).held p + 0 + 0
    rw [Broker.held_init]
  taken p := by
    show 0 = (Broker.init channels).held p + 0 + 0 + 0
    rw [Broker.held_init]
  held i ch tag m hchannel hunacked := by
    obtain rfl := List.eq_of_mem_replicate (List.mem_of_getElem? hchannel)
    cases hunacked
  waiting r hr := by cases hr
  fresh r hr := by cases hr
  distinct := List.nodup_nil
  settled m hm := by cases hm
  dropped m hm := by cases hm
  handled r hr := by cases hr

theorem inv_publish (h : Inv service s) (m : μ) : Inv service (step service s (.publish m)) where
  placed p := by
    have hplaced : (s.broker.publish m).placed p = s.broker.placed p + [m].countP p :=
      Broker.placed_publish m
    show (s.published ++ [m]).countP p = (s.broker.publish m).placed p
    rw [List.countP_append, h.placed p, hplaced]
  taken := h.taken
  held := h.held
  waiting := h.waiting
  fresh := h.fresh
  distinct := h.distinct
  settled := h.settled
  dropped := h.dropped
  handled := h.handled

theorem inv_lose (h : Inv service s) (i : Nat) : Inv service (step service s (.lose i)) := by
  cases hchannel : s.broker.channels[i]? with
  | none =>
      have hsame : step service s (.lose i) = s := by
        show { s with broker := s.broker.lose i } = s
        rw [Broker.lose, hchannel]
      rw [hsame]
      exact h
  | some ch =>
      have hchannels : (s.broker.lose i).channels =
          s.broker.channels.set i ⟨ch.generation + 1, 0, none⟩ := by
        rw [Broker.lose, hchannel]
      have hkept : (s.broker.lose i).settled = s.broker.settled ∧
          (s.broker.lose i).dropped = s.broker.dropped := by
        rw [Broker.lose, hchannel]
        exact ⟨rfl, rfl⟩
      constructor
      · intro p
        exact (h.placed p).trans (Broker.placed_lose i).symm
      · intro p
        show _ + (s.broker.lose i).dropped.countP p = (s.broker.lose i).taken p
        rw [hkept.2, Broker.taken_lose]
        exact h.taken p
      · intro j ch' tag m hj hunacked
        have hj' : (s.broker.channels.set i ⟨ch.generation + 1, 0, none⟩)[j]? = some ch' :=
          hchannels ▸ hj
        rcases Interleaving.getElem?_set_cases hj' with ⟨-, rfl⟩ | ⟨-, hold⟩
        · cases hunacked
        · exact h.held j ch' tag m hold hunacked
      · intro r hr hreply ch' hj hgeneration
        have hj' : (s.broker.channels.set i ⟨ch.generation + 1, 0, none⟩)[r.delivery.channel]? =
            some ch' := hchannels ▸ hj
        rcases Interleaving.getElem?_set_cases hj' with ⟨hi, rfl⟩ | ⟨-, hold⟩
        · obtain ⟨ch₀, hch₀, hle, -⟩ := h.fresh r hr
          rw [← hi, hchannel] at hch₀
          obtain rfl := Option.some.inj hch₀
          dsimp only at hgeneration
          omega
        · exact h.waiting r hr hreply ch' hold hgeneration
      · intro r hr
        obtain ⟨ch₀, hch₀, hle, htag⟩ := h.fresh r hr
        show ∃ ch', (s.broker.lose i).channels[r.delivery.channel]? = some ch' ∧ _
        rw [hchannels]
        by_cases hi : i = r.delivery.channel
        · subst hi
          rw [hchannel] at hch₀
          obtain rfl := Option.some.inj hch₀
          obtain ⟨hlt, -⟩ := List.getElem?_eq_some_iff.mp hchannel
          refine ⟨_, List.getElem?_set_self hlt, ?_, fun heq => ?_⟩
          · dsimp only
            omega
          · dsimp only at heq
            omega
        · exact ⟨ch₀, by rw [List.getElem?_set_ne hi]; exact hch₀, hle, htag⟩
      · exact h.distinct
      · intro m hm
        exact h.settled m (hkept.1 ▸ hm)
      · intro m hm
        exact h.dropped m (hkept.2 ▸ hm)
      · exact h.handled

/-- A channel without a message has no handler at work in its generation. -/
theorem Inv.reply_of_free (h : Inv service s) {r : Run μ} (hr : r ∈ s.runs) {ch : Channel μ}
    (hchannel : s.broker.channels[r.delivery.channel]? = some ch) (hfree : ch.unacked = none)
    (hgeneration : ch.generation = r.delivery.generation) : r.reply ≠ none := by
  intro hreply
  have hheld := h.waiting r hr hreply ch hchannel hgeneration
  rw [hfree] at hheld
  cases hheld

/-- The tags of a channel are larger than those of its earlier deliveries. -/
theorem Inv.fresh_set (h : Inv service s) {i : Nat} {ch : Channel μ}
    (hchannel : s.broker.channels[i]? = some ch) (ch' : Channel μ)
    (hgeneration : ch'.generation = ch.generation) (hdelivered : ch.delivered ≤ ch'.delivered)
    {r : Run μ} (hr : r ∈ s.runs) :
    ∃ ch₁, (s.broker.channels.set i ch')[r.delivery.channel]? = some ch₁ ∧
      r.delivery.generation ≤ ch₁.generation ∧
      (r.delivery.generation = ch₁.generation → r.delivery.tag < ch₁.delivered) := by
  obtain ⟨ch₀, hch₀, hle, htag⟩ := h.fresh r hr
  by_cases hi : i = r.delivery.channel
  · subst hi
    rw [hchannel] at hch₀
    obtain rfl := Option.some.inj hch₀
    obtain ⟨hlt, -⟩ := List.getElem?_eq_some_iff.mp hchannel
    refine ⟨ch', List.getElem?_set_self hlt, ?_, fun heq => ?_⟩
    · rw [hgeneration]
      exact hle
    · rw [hgeneration] at heq
      exact Nat.lt_of_lt_of_le (htag heq) hdelivered
  · exact ⟨ch₀, by rw [List.getElem?_set_ne hi]; exact hch₀, hle, htag⟩

/-- A message that a handler matches: the handler starts. -/
theorem inv_start (h : Inv service s) {i : Nat} {d : Delivery μ} {b : Broker μ}
    (hdeliver : s.broker.deliver i = some (d, b)) (hhandles : service.handles d.message = true) :
    Inv service { s with broker := b, runs := s.runs ++ [⟨d, none⟩] } := by
  have hplaced : ∀ p, b.placed p = s.broker.placed p := fun p => Broker.placed_deliver hdeliver
  have htaken : ∀ p, b.taken p = s.broker.taken p + [d.message].countP p :=
    fun p => Broker.taken_deliver hdeliver
  obtain ⟨rest, ch, hready, hchannel, hfree, hd, rfl⟩ := Broker.deliver_eq_some hdeliver
  obtain ⟨hlt, -⟩ := List.getElem?_eq_some_iff.mp hchannel
  have hnew : (⟨d, none⟩ : Run μ) ∈ s.runs ++ [⟨d, none⟩] :=
    List.mem_append_right _ List.mem_cons_self
  constructor
  · exact fun p => (h.placed p).trans (hplaced p).symm
  · intro p
    have hold := h.taken p
    have hcount : ((s.runs ++ [(⟨d, none⟩ : Run μ)]).map (·.delivery.message)).countP p =
        (s.runs.map (·.delivery.message)).countP p + [d.message].countP p := by
      rw [List.map_append, List.countP_append]
      rfl
    rw [htaken p]
    dsimp only
    omega
  · intro j ch' tag m hj hunacked
    rcases Interleaving.getElem?_set_cases hj with ⟨rfl, rfl⟩ | ⟨-, hold⟩
    · obtain ⟨rfl, rfl⟩ := Prod.mk.inj (Option.some.inj hunacked)
      exact ⟨⟨d, none⟩, hnew, hd, rfl⟩
    · obtain ⟨r, hr, hdelivery, hreply⟩ := h.held j ch' tag m hold hunacked
      exact ⟨r, List.mem_append_left _ hr, hdelivery, hreply⟩
  · intro r hr hreply ch' hj hgeneration
    rcases List.mem_append.mp hr with hr | hr
    · rcases Interleaving.getElem?_set_cases hj with ⟨hi, rfl⟩ | ⟨-, hold⟩
      · exact absurd hreply (h.reply_of_free hr (hi ▸ hchannel) hfree hgeneration)
      · exact h.waiting r hr hreply ch' hold hgeneration
    · obtain rfl := List.mem_singleton.mp hr
      rw [hd] at hj ⊢
      rcases Interleaving.getElem?_set_cases hj with ⟨-, rfl⟩ | ⟨hne, -⟩
      · rfl
      · exact absurd rfl hne
  · intro r hr
    rcases List.mem_append.mp hr with hr | hr
    · exact h.fresh_set hchannel ⟨ch.generation, ch.delivered + 1, some (ch.delivered, d.message)⟩ rfl
        (Nat.le_succ _) hr
    · obtain rfl := List.mem_singleton.mp hr
      rw [hd]
      exact ⟨_, List.getElem?_set_self hlt, Nat.le_refl _, fun _ => Nat.lt_succ_self _⟩
  · show ((s.runs ++ [(⟨d, none⟩ : Run μ)]).map fun r => Delivery.key r.delivery).Nodup
    rw [List.map_append, List.nodup_append]
    refine ⟨h.distinct, List.nodup_cons.mpr ⟨List.not_mem_nil, List.nodup_nil⟩, ?_⟩
    intro key hkey key' hkey' heq
    obtain ⟨r, hr, rfl⟩ := List.mem_map.mp hkey
    obtain rfl := List.mem_singleton.mp hkey'
    -- The tag of the new delivery is the number of the deliveries before.
    obtain ⟨ch₀, hch₀, -, htag⟩ := h.fresh r hr
    rw [hd] at heq
    obtain ⟨hi, hrest⟩ := Prod.mk.inj heq
    obtain ⟨hgeneration, heqTag⟩ := Prod.mk.inj hrest
    dsimp only at hi hgeneration heqTag
    rw [hi, hchannel] at hch₀
    obtain rfl := Option.some.inj hch₀
    have := htag hgeneration
    omega
  · intro m hm
    obtain ⟨r, hr, hmessage, hreply⟩ := h.settled m hm
    exact ⟨r, List.mem_append_left _ hr, hmessage, hreply⟩
  · exact h.dropped
  · intro r hr
    rcases List.mem_append.mp hr with hr | hr
    · exact h.handled r hr
    · obtain rfl := List.mem_singleton.mp hr
      exact hhandles

/-- A message that no handler matches is dropped. -/
theorem inv_reject (h : Inv service s) {i : Nat} {d : Delivery μ} {b : Broker μ}
    (hdeliver : s.broker.deliver i = some (d, b)) (hhandles : service.handles d.message ≠ true) :
    Inv service { s with broker := (b.answer d .nack).getD b } := by
  have hholds := Broker.holds_deliver hdeliver
  obtain ⟨rest, ch, hchannel, hfree, hanswer⟩ := Broker.reject_deliver hdeliver
  have hplaced := fun p => (Broker.placed_answer (p := p) hholds hanswer).trans
    (Broker.placed_deliver hdeliver)
  have htaken := fun p => (Broker.taken_answer (p := p) hholds hanswer).trans
    (Broker.taken_deliver hdeliver)
  rw [hanswer]
  constructor
  · exact fun p => (h.placed p).trans (hplaced p).symm
  · intro p
    have hold := h.taken p
    have hcount : (s.broker.dropped ++ [d.message]).countP p =
        s.broker.dropped.countP p + [d.message].countP p := List.countP_append
    have hnow := htaken p
    dsimp only [Option.getD_some] at hnow ⊢
    omega
  · intro j ch' tag m hj hunacked
    rcases Interleaving.getElem?_set_cases hj with ⟨-, rfl⟩ | ⟨-, hold⟩
    · cases hunacked
    · exact h.held j ch' tag m hold hunacked
  · intro r hr hreply ch' hj hgeneration
    rcases Interleaving.getElem?_set_cases hj with ⟨hi, rfl⟩ | ⟨-, hold⟩
    · exact absurd hreply (h.reply_of_free hr (hi ▸ hchannel) hfree hgeneration)
    · exact h.waiting r hr hreply ch' hold hgeneration
  · exact fun r hr => h.fresh_set hchannel ⟨ch.generation, ch.delivered + 1, none⟩ rfl
      (Nat.le_succ _) hr
  · exact h.distinct
  · exact h.settled
  · intro m hm
    rcases List.mem_append.mp hm with hm | hm
    · exact h.dropped m hm
    · obtain rfl := List.mem_singleton.mp hm
      exact Bool.eq_false_iff.mpr hhandles
  · exact h.handled

theorem inv_deliver (h : Inv service s) (i : Nat) : Inv service (step service s (.deliver i)) := by
  cases hdeliver : s.broker.deliver i with
  | none =>
      have hsame : step service s (.deliver i) = s := by rw [step, hdeliver]
      rw [hsame]
      exact h
  | some delivery =>
      obtain ⟨d, b⟩ := delivery
      by_cases hhandles : service.handles d.message = true
      · have hnext : step service s (.deliver i) =
            { s with broker := b, runs := s.runs ++ [⟨d, none⟩] } := by
          rw [step, hdeliver]
          exact if_pos hhandles
        rw [hnext]
        exact inv_start h hdeliver hhandles
      · have hnext : step service s (.deliver i) =
            { s with broker := (b.answer d .nack).getD b } := by
          rw [step, hdeliver]
          exact if_neg hhandles
        rw [hnext]
        exact inv_reject h hdeliver hhandles

/-! ## The end of a handler -/

theorem intercept_of_answer {b b' : Broker μ} {d : Delivery μ} (outcome : Outcome)
    (h : b.answer d .ack = some b') : (intercept b d outcome).1 = b' := by
  cases outcome <;> simp only [intercept, catchError, h]

theorem intercept_of_lost {b : Broker μ} {d : Delivery μ} (outcome : Outcome)
    (h : b.answer d .ack = none) : (intercept b d outcome).1 = b := by
  cases outcome <;> simp only [intercept, catchError, h]

theorem map_delivery_set {α : Type} (f : Delivery μ → α) {runs : List (Run μ)} {k : Nat}
    {r : Run μ} (hk : runs[k]? = some r) (reply : Option Reply) :
    (runs.set k ⟨r.delivery, reply⟩).map (fun r => f r.delivery) =
      runs.map fun r => f r.delivery := by
  obtain ⟨hlt, hget⟩ := List.getElem?_eq_some_iff.mp hk
  apply List.ext_getElem?
  intro j
  rw [List.getElem?_map, List.getElem?_map, List.getElem?_set]
  by_cases hj : k = j
  · subst hj
    rw [if_pos rfl, if_pos hlt, hk]
    rfl
  · rw [if_neg hj]

theorem mem_set_of_ne {runs : List (Run μ)} {k : Nat} {r r₁ : Run μ} (hk : runs[k]? = some r)
    (r' : Run μ) (hr₁ : r₁ ∈ runs) (hne : r₁ ≠ r) : r₁ ∈ runs.set k r' := by
  obtain ⟨j, hj⟩ := List.mem_iff_getElem?.mp hr₁
  have hkj : k ≠ j := by
    rintro rfl
    exact hne (Option.some.inj (hj.symm.trans hk))
  exact List.mem_of_getElem? (by rw [List.getElem?_set_ne hkj]; exact hj)

/-- Different runs are of different deliveries. -/
theorem Inv.index_eq (h : Inv service s) {j k : Nat} {r r₁ : Run μ} (hj : s.runs[j]? = some r₁)
    (hk : s.runs[k]? = some r) (hkey : Delivery.key r₁.delivery = Delivery.key r.delivery) :
    j = k := by
  have hlt : j < (s.runs.map fun r => Delivery.key r.delivery).length := by
    rw [List.length_map]
    exact (List.getElem?_eq_some_iff.mp hj).1
  refine (List.getElem?_inj hlt h.distinct).mp ?_
  rw [List.getElem?_map, List.getElem?_map, hj, hk]
  exact congrArg some hkey

section Finish

variable {k : Nat} {r : Run μ} (hk : s.runs[k]? = some r) (hworking : r.reply = none)
  (reply : Reply)

include hk hworking

/-- The channel is gone: the broker does not hear of the end. -/
theorem inv_finish_lost (h : Inv service s) {ch : Channel μ}
    (hchannel : s.broker.channels[r.delivery.channel]? = some ch)
    (hgeneration : ch.generation ≠ r.delivery.generation) :
    Inv service { s with runs := s.runs.set k ⟨r.delivery, some reply⟩ } := by
  have hmap : ∀ {α : Type} (f : Delivery μ → α),
      (s.runs.set k ⟨r.delivery, some reply⟩).map (fun r => f r.delivery) =
        s.runs.map fun r => f r.delivery := fun f => map_delivery_set f hk _
  have hmem : ∀ r₁ ∈ s.runs.set k ⟨r.delivery, some reply⟩,
      r₁ ∈ s.runs ∨ r₁ = ⟨r.delivery, some reply⟩ := fun r₁ hr₁ => List.mem_or_eq_of_mem_set hr₁
  constructor
  · exact h.placed
  · intro p
    dsimp only
    rw [hmap Delivery.message]
    exact h.taken p
  · intro i ch' tag m hi hunacked
    obtain ⟨r₁, hr₁, hdelivery, hreply⟩ := h.held i ch' tag m hi hunacked
    refine ⟨r₁, mem_set_of_ne hk _ hr₁ ?_, hdelivery, hreply⟩
    rintro rfl
    rw [hdelivery] at hchannel hgeneration
    obtain rfl := Option.some.inj (hchannel.symm.trans hi)
    exact hgeneration rfl
  · intro r₁ hr₁ hreply
    rcases hmem r₁ hr₁ with hold | rfl
    · exact h.waiting r₁ hold hreply
    · cases hreply
  · intro r₁ hr₁
    rcases hmem r₁ hr₁ with hold | rfl
    · exact h.fresh r₁ hold
    · exact h.fresh r (List.mem_of_getElem? hk)
  · show ((s.runs.set k _).map fun r => Delivery.key r.delivery).Nodup
    rw [hmap Delivery.key]
    exact h.distinct
  · intro m hm
    obtain ⟨r₁, hr₁, hmessage, hreply⟩ := h.settled m hm
    refine ⟨r₁, mem_set_of_ne hk _ hr₁ ?_, hmessage, hreply⟩
    rintro rfl
    exact hreply hworking
  · exact h.dropped
  · intro r₁ hr₁
    rcases hmem r₁ hr₁ with hold | rfl
    · exact h.handled r₁ hold
    · exact h.handled r (List.mem_of_getElem? hk)

/-- The channel waits: the message is settled. -/
theorem inv_finish_held (h : Inv service s) {b : Broker μ} (hholds : s.broker.Holds r.delivery)
    (hanswer : s.broker.answer r.delivery .ack = some b) :
    Inv service { s with broker := b, runs := s.runs.set k ⟨r.delivery, some reply⟩ } := by
  have hplaced : ∀ p, b.placed p = s.broker.placed p :=
    fun p => Broker.placed_answer hholds hanswer
  have htaken : ∀ p, b.taken p = s.broker.taken p := fun p => Broker.taken_answer hholds hanswer
  obtain ⟨ch, hchannel, hgeneration, hunacked, heq⟩ := Broker.answer_of_holds .ack hholds
  obtain rfl := Option.some.inj (heq.symm.trans hanswer)
  have hmap : ∀ {α : Type} (f : Delivery μ → α),
      (s.runs.set k ⟨r.delivery, some reply⟩).map (fun r => f r.delivery) =
        s.runs.map fun r => f r.delivery := fun f => map_delivery_set f hk _
  have hmem : ∀ r₁ ∈ s.runs.set k ⟨r.delivery, some reply⟩,
      r₁ ∈ s.runs ∨ r₁ = ⟨r.delivery, some reply⟩ := fun r₁ hr₁ => List.mem_or_eq_of_mem_set hr₁
  have hr : r ∈ s.runs := List.mem_of_getElem? hk
  constructor
  · exact fun p => (h.placed p).trans (hplaced p).symm
  · intro p
    rw [htaken p]
    show ((s.runs.set k _).map fun r => r.delivery.message).countP p + _ = _
    rw [hmap Delivery.message]
    exact h.taken p
  · intro i ch' tag m hi hheld
    rcases Interleaving.getElem?_set_cases hi with ⟨-, rfl⟩ | ⟨hne, hold⟩
    · cases hheld
    · obtain ⟨r₁, hr₁, hdelivery, hreply⟩ := h.held i ch' tag m hold hheld
      refine ⟨r₁, mem_set_of_ne hk _ hr₁ ?_, hdelivery, hreply⟩
      rintro rfl
      rw [hdelivery] at hne
      exact hne rfl
  · intro r₁ hr₁ hreply ch' hi hgeneration'
    obtain ⟨j, hj⟩ := List.mem_iff_getElem?.mp hr₁
    rcases Interleaving.getElem?_set_cases hj with ⟨-, rfl⟩ | ⟨hkj, hold⟩
    · cases hreply
    · have hr₁' := List.mem_of_getElem? hold
      rcases Interleaving.getElem?_set_cases hi with ⟨hsame, rfl⟩ | ⟨-, hi'⟩
      · -- Another handler at work on the same channel would be of the same delivery.
        have hwaits := h.waiting r₁ hr₁' hreply ch (hsame ▸ hchannel) hgeneration'
        rw [hunacked] at hwaits
        obtain ⟨htag, -⟩ := Prod.mk.inj (Option.some.inj hwaits)
        have hkey : Delivery.key r₁.delivery = Delivery.key r.delivery := by
          unfold Delivery.key
          rw [← hsame, ← htag]
          dsimp only at hgeneration'
          rw [← hgeneration', hgeneration]
        exact absurd (h.index_eq hold hk hkey) (Ne.symm hkj)
      · exact h.waiting r₁ hr₁' hreply ch' hi' hgeneration'
  · intro r₁ hr₁
    rcases hmem r₁ hr₁ with hold | rfl
    · exact h.fresh_set hchannel ⟨ch.generation, ch.delivered, none⟩ rfl (Nat.le_refl _) hold
    · have hold := h.fresh_set hchannel ⟨ch.generation, ch.delivered, none⟩ rfl (Nat.le_refl _) hr
      exact hold
  · show ((s.runs.set k _).map fun r => Delivery.key r.delivery).Nodup
    rw [hmap Delivery.key]
    exact h.distinct
  · intro m hm
    rcases List.mem_append.mp hm with hm | hm
    · obtain ⟨r₁, hr₁, hmessage, hreply⟩ := h.settled m hm
      refine ⟨r₁, mem_set_of_ne hk _ hr₁ ?_, hmessage, hreply⟩
      rintro rfl
      exact hreply hworking
    · obtain rfl := List.mem_singleton.mp hm
      obtain ⟨hlt, -⟩ := List.getElem?_eq_some_iff.mp hk
      refine ⟨⟨r.delivery, some reply⟩, ?_, rfl, by simp⟩
      exact List.mem_of_getElem? (List.getElem?_set_self hlt)
  · exact h.dropped
  · intro r₁ hr₁
    rcases hmem r₁ hr₁ with hold | rfl
    · exact h.handled r₁ hold
    · exact h.handled r hr

end Finish

/-- What the end of a handler that is at work does. -/
theorem Inv.finish_cases (h : Inv service s) (hack : service.acknowledges = true) {k : Nat}
    {r : Run μ} (hk : s.runs[k]? = some r) (hworking : r.reply = none) (outcome : Outcome) :
    (∃ reply ch, s.broker.channels[r.delivery.channel]? = some ch ∧
        ch.generation ≠ r.delivery.generation ∧ step service s (.finish k outcome) =
          { s with runs := s.runs.set k ⟨r.delivery, some reply⟩ }) ∨
      ∃ reply b, s.broker.Holds r.delivery ∧ s.broker.answer r.delivery .ack = some b ∧
        step service s (.finish k outcome) =
          { s with broker := b, runs := s.runs.set k ⟨r.delivery, some reply⟩ } := by
  have hr : r ∈ s.runs := List.mem_of_getElem? hk
  obtain ⟨ch, hchannel, -, -⟩ := h.fresh r hr
  have hstep : step service s (.finish k outcome) =
      { s with
        broker := (intercept s.broker r.delivery outcome).1
        runs := s.runs.set k
          ⟨r.delivery, some (intercept s.broker r.delivery outcome).2⟩ } := by
    simp only [step, hk, hworking, Option.isSome_none, settle, hack, if_true]
    rfl
  by_cases hgeneration : ch.generation = r.delivery.generation
  · have hholds : s.broker.Holds r.delivery :=
      ⟨ch, hchannel, hgeneration, h.waiting r hr hworking ch hchannel hgeneration⟩
    obtain ⟨_, -, -, -, hanswer⟩ := Broker.answer_of_holds .ack hholds
    rw [intercept_of_answer outcome hanswer] at hstep
    exact .inr ⟨_, _, hholds, hanswer, hstep⟩
  · have hanswer := Broker.answer_eq_none .ack hchannel hgeneration
    rw [intercept_of_lost outcome hanswer] at hstep
    exact .inl ⟨_, ch, hchannel, hgeneration, hstep⟩

theorem inv_finish (h : Inv service s) (hack : service.acknowledges = true) (k : Nat)
    (outcome : Outcome) : Inv service (step service s (.finish k outcome)) := by
  cases hk : s.runs[k]? with
  | none =>
      have hsame : step service s (.finish k outcome) = s := by rw [step, hk]
      rw [hsame]
      exact h
  | some r =>
      by_cases hworking : r.reply = none
      · rcases h.finish_cases hack hk hworking outcome with
          ⟨reply, ch, hchannel, hgeneration, hstep⟩ | ⟨reply, b, hholds, hanswer, hstep⟩
        · rw [hstep]
          exact inv_finish_lost hk hworking reply h hchannel hgeneration
        · rw [hstep]
          exact inv_finish_held hk hworking reply h hholds hanswer
      · have hsame : step service s (.finish k outcome) = s := by
          rw [step, hk]
          exact if_pos (Option.isSome_iff_ne_none.mpr hworking)
        rw [hsame]
        exact h

theorem inv_step (hack : service.acknowledges = true) (s : State μ) (e : Event μ)
    (h : Inv service s) : Inv service (step service s e) := by
  cases e with
  | publish m => exact inv_publish h m
  | deliver i => exact inv_deliver h i
  | finish k outcome => exact inv_finish h hack k outcome
  | lose i => exact inv_lose h i

end Step

theorem inv_run {service : Service μ} (hack : service.acknowledges = true) (channels : Nat)
    (events : List (Event μ)) : Inv service (run service channels events) :=
  Sequential.run_keeps (inv_step hack) (inv_init service channels) events

/-! ## Every run -/

/-- **No message is lost, and none is handled twice without a loss.** In every run of a service
with the interceptor, for every message: each of its publications is in the queue, in hand, settled
or dropped, once; its handler has been started once for each that is in hand or settled and once
for each time that a channel was lost which held it; it is settled only after a handler of it has
ended, and dropped only if no handler matches it. -/
theorem handled_once_and_for_each_loss [DecidableEq μ] (service : Service μ)
    (hack : service.acknowledges = true) (channels : Nat) (events : List (Event μ)) (m : μ) :
    let s := run service channels events
    let inHand := s.broker.held (· == m)
    (s.published.count m = s.broker.ready.count m + inHand + s.broker.settled.count m +
        s.broker.dropped.count m) ∧
      ((s.runs.map (·.delivery.message)).count m =
        inHand + s.broker.settled.count m + s.broker.requeued.count m) ∧
      (m ∈ s.broker.settled → ∃ r ∈ s.runs, r.delivery.message = m ∧ r.reply ≠ none) ∧
      (m ∈ s.broker.dropped → service.handles m = false) := by
  have h := inv_run hack channels events
  refine ⟨h.placed (· == m), ?_, h.settled m, h.dropped m⟩
  have htaken := h.taken (· == m)
  unfold Broker.taken at htaken
  unfold List.count
  omega

/-- A service that has a handler for every message. -/
def everyMessage : Service Nat := ⟨fun _ => true, true⟩

/-- The channel is lost while a handler works on the message, and the message comes again. -/
def lostWhileHandled : List (Event Nat) :=
  [.publish 7, .deliver 0, .lose 0, .deliver 0, .finish 0 .resolved, .finish 1 .resolved]

/-- The caller of the first handler is sent an error, and the message is handled twice. -/
theorem handled_once_and_for_each_loss_lost :
    let s := run everyMessage 1 lostWhileHandled
    s.runs.map (·.reply) = [some .error, some .response] ∧
      (s.published.count 7 = s.broker.ready.count 7 + s.broker.held (· == 7) +
        s.broker.settled.count 7 + s.broker.dropped.count 7) ∧
      ((s.runs.map (·.delivery.message)).count 7 = s.broker.held (· == 7) +
        s.broker.settled.count 7 + s.broker.requeued.count 7) ∧
      (7 ∈ s.broker.settled → ∃ r ∈ s.runs, r.delivery.message = 7 ∧ r.reply ≠ none) ∧
      (7 ∈ s.broker.dropped → everyMessage.handles 7 = false) :=
  ⟨by decide, handled_once_and_for_each_loss everyMessage rfl 1 lostWhileHandled 7⟩

/-! ## The queue is worked off -/

/-- The service's own events: it takes messages, and its handlers end. -/
def Event.IsOwn : Event μ → Prop
  | .deliver _ => True
  | .finish _ _ => True
  | _ => False

/-- What is left to do: to hand out what waits and to answer what is handed out. -/
def State.work (s : State μ) : Nat := 2 * s.broker.ready.length + s.broker.unacked

theorem length_channels_step {service : Service μ} (hack : service.acknowledges = true)
    {s : State μ} (h : Inv service s) (e : Event μ) :
    (step service s e).broker.channels.length = s.broker.channels.length := by
  cases e with
  | publish m => rfl
  | lose i => exact Broker.length_lose i
  | deliver i =>
      simp only [step]
      split
      · rfl
      · rename_i d b hdeliver
        have hlength := Broker.length_deliver hdeliver
        split
        · exact hlength
        · cases hanswer : b.answer d .nack with
          | none => exact hlength
          | some b' => exact (Broker.length_answer hanswer).trans hlength
  | finish k outcome =>
      cases hk : s.runs[k]? with
      | none => simp only [step, hk]
      | some r =>
          by_cases hworking : r.reply = none
          · rcases h.finish_cases hack hk hworking outcome with
              ⟨reply, ch, -, -, hstep⟩ | ⟨reply, b, -, hanswer, hstep⟩
            · rw [hstep]
            · rw [hstep]
              exact Broker.length_answer hanswer
          · have hsome : r.reply.isSome = true := Option.isSome_iff_ne_none.mpr hworking
            simp only [step, hk, hsome, if_true]

theorem length_channels_run {service : Service μ} (hack : service.acknowledges = true)
    (channels : Nat) (events : List (Event μ)) :
    (run service channels events).broker.channels.length = channels := by
  have hrun := Sequential.run_keeps
    (P := fun s => Inv service s ∧ s.broker.channels.length = channels)
    (fun s e h => ⟨inv_step hack s e h.1, (length_channels_step hack h.1 e).trans h.2⟩)
    ⟨inv_init service channels, List.length_replicate⟩ events
  exact hrun.2

/-- There is always something to do next, until nothing is left. -/
theorem Inv.exists_next {service : Service μ} {s : State μ} (h : Inv service s)
    (hack : service.acknowledges = true) (hchannels : 0 < s.broker.channels.length)
    (hwork : 0 < s.work) :
    ∃ e : Event μ, e.IsOwn ∧ (step service s e).work < s.work := by
  by_cases hfree : s.broker.unacked = 0
  · have hready : s.broker.ready ≠ [] := by
      intro hnil
      unfold State.work at hwork
      rw [hnil, hfree, List.length_nil] at hwork
      omega
    obtain ⟨d, b, hdeliver⟩ := Broker.exists_delivery hready hchannels hfree
    refine ⟨.deliver 0, trivial, ?_⟩
    have hheld : b.unacked = s.broker.unacked + [d.message].countP fun _ => true :=
      Broker.held_deliver hdeliver
    have hone : [d.message].countP (fun _ => true) = 1 := rfl
    obtain ⟨rest, ch, hlist, -, -, -, hb⟩ := Broker.deliver_eq_some hdeliver
    have hlength : s.broker.ready.length = b.ready.length + 1 := by
      rw [hlist, hb]
      rfl
    have hnext : (step service s (.deliver 0)).broker.ready.length = b.ready.length ∧
        (step service s (.deliver 0)).broker.unacked ≤ b.unacked := by
      simp only [step, hdeliver]
      split
      · exact ⟨rfl, Nat.le_refl _⟩
      · obtain ⟨_, -, -, -, hanswer⟩ := Broker.answer_of_holds .nack (Broker.holds_deliver hdeliver)
        obtain ⟨hless, hsame, -⟩ := Broker.held_answer (p := fun _ => true)
          (Broker.holds_deliver hdeliver) hanswer
        rw [hanswer]
        refine ⟨congrArg List.length hsame, ?_⟩
        unfold Broker.unacked
        dsimp only [Option.getD_some]
        omega
    unfold State.work
    omega
  · obtain ⟨i, ch, tag, m, hi, hunacked⟩ := Broker.exists_unacked (Nat.pos_of_ne_zero hfree)
    obtain ⟨r, hr, hdelivery, hworking⟩ := h.held i ch tag m hi hunacked
    obtain ⟨k, hk⟩ := List.mem_iff_getElem?.mp hr
    refine ⟨.finish k .resolved, trivial, ?_⟩
    rcases h.finish_cases hack hk hworking .resolved with
      ⟨reply, ch', hch', hgeneration, -⟩ | ⟨reply, b, hholds, hanswer, hstep⟩
    · rw [hdelivery] at hch' hgeneration
      obtain rfl := Option.some.inj (hch'.symm.trans hi)
      exact absurd rfl hgeneration
    · rw [hstep]
      obtain ⟨hless, hready, -⟩ := Broker.held_answer (p := fun _ => true) hholds hanswer
      have hone : [r.delivery.message].countP (fun _ => true) = 1 := rfl
      unfold State.work Broker.unacked
      dsimp only
      rw [hready]
      omega

/-- **The queue can be worked off.** After every run, whatever was lost in it, some deliveries and
ends of handlers lead to a state in which nothing waits and nothing is in hand, if there is a
channel at all. -/
theorem drains (service : Service μ) (hack : service.acknowledges = true) (channels : Nat)
    (hchannels : 0 < channels) (events : List (Event μ)) :
    ∃ more : List (Event μ), (∀ e ∈ more, e.IsOwn) ∧
      (run service channels (events ++ more)).broker.ready = [] ∧
      (run service channels (events ++ more)).broker.unacked = 0 := by
  induction hwork : (run service channels events).work using Nat.strongRecOn generalizing events with
  | ind work ih =>
      by_cases hzero : work = 0
      · unfold State.work at hwork
        refine ⟨[], List.forall_mem_nil _, ?_⟩
        rw [List.append_nil]
        exact ⟨List.length_eq_zero_iff.mp (by omega), by omega⟩
      · have h := inv_run hack channels events
        have hlength : 0 < (run service channels events).broker.channels.length := by
          rw [length_channels_run hack]
          exact hchannels
        obtain ⟨e, hown, hless⟩ := h.exists_next hack hlength (by omega)
        have hrun : run service channels (events ++ [e]) =
            step service (run service channels events) e := Sequential.run_append _ _ _
        have hnext : (run service channels (events ++ [e])).work < work := by
          rw [hrun, ← hwork]
          exact hless
        obtain ⟨more, hmore, hdone⟩ := ih _ hnext (events ++ [e]) rfl
        rw [List.append_assoc, List.singleton_append] at hdone
        exact ⟨e :: more, List.forall_mem_cons.mpr ⟨hown, hmore⟩, hdone⟩

theorem drains_lost : ∃ more : List (Event Nat), (∀ e ∈ more, e.IsOwn) ∧
    (run everyMessage 1 ([.publish 7, .deliver 0, .lose 0] ++ more)).broker.ready = [] ∧
    (run everyMessage 1 ([.publish 7, .deliver 0, .lose 0] ++ more)).broker.unacked = 0 :=
  drains everyMessage rfl 1 (by decide) [.publish 7, .deliver 0, .lose 0]

/-! ## Without the interceptor -/

def Event.IsLoss : Event μ → Prop
  | .lose _ => True
  | _ => False

/-- What holds while nothing is acknowledged and no channel is lost. -/
structure Stuck (channels : Nat) (s : State μ) : Prop where
  length : s.broker.channels.length = channels
  runs : s.runs.length = s.broker.unacked

theorem stuck_step {service : Service μ} (hack : service.acknowledges = false) {channels : Nat}
    {s : State μ} {e : Event μ} (he : ¬ e.IsLoss) (h : Stuck channels s) :
    Stuck channels (step service s e) := by
  cases e with
  | publish m => exact ⟨h.length, h.runs⟩
  | lose i => exact absurd trivial he
  | deliver i =>
      simp only [step]
      split
      · exact h
      · rename_i d b hdeliver
        have hlength := Broker.length_deliver hdeliver
        have hheld : b.unacked = s.broker.unacked + [d.message].countP fun _ => true :=
          Broker.held_deliver hdeliver
        have hone : [d.message].countP (fun _ => true) = 1 := rfl
        have hruns := h.runs
        split
        · refine ⟨hlength.trans h.length, ?_⟩
          show (s.runs ++ [(⟨d, none⟩ : Run μ)]).length = b.unacked
          rw [List.length_append, List.length_singleton]
          omega
        · obtain ⟨_, -, -, -, hanswer⟩ :=
            Broker.answer_of_holds .nack (Broker.holds_deliver hdeliver)
          obtain ⟨hless, -⟩ := Broker.held_answer (p := fun _ => true)
            (Broker.holds_deliver hdeliver) hanswer
          rw [hanswer]
          refine ⟨(Broker.length_answer hanswer).trans (hlength.trans h.length), ?_⟩
          unfold Broker.unacked at hheld hruns ⊢
          dsimp only [Option.getD_some]
          omega
  | finish k outcome =>
      simp only [step]
      split
      · exact h
      · split
        · exact h
        · have hbroker : ∀ d, (settle service s.broker d outcome).1 = s.broker := by
            intro d
            unfold settle
            rw [hack]
            cases outcome <;> rfl
          rw [hbroker]
          exact ⟨h.length, (List.length_set).trans h.runs⟩

/-- **Without the interceptor the service stops.** As long as no channel is lost, it starts no more
handlers than it has channels, however many messages wait. -/
theorem blocked_without_acks (service : Service μ) (hack : service.acknowledges = false)
    (channels : Nat) (events : List (Event μ)) (hevents : ∀ e ∈ events, ¬ e.IsLoss) :
    (run service channels events).runs.length ≤ channels := by
  have hinit : Stuck channels (init channels : State μ) :=
    ⟨List.length_replicate, (Broker.held_init channels).symm⟩
  have hsteps : Sequential.AllSteps (step service) (fun _ e => ¬ e.IsLoss) (init channels) events :=
    Sequential.allSteps_of_forall _ fun e he _ => hevents e he
  have h := Sequential.run_of_allSteps (fun s e he h => stuck_step hack he h) hsteps hinit
  calc (run service channels events).runs.length
      = (run service channels events).broker.unacked := h.runs
    _ ≤ (run service channels events).broker.channels.length := Broker.unacked_le _
    _ = channels := h.length

/-- The second message is not handled, although the handler of the first has returned. -/
theorem unacknowledged_waits :
    (run (⟨fun _ => true, false⟩ : Service Nat) 1
      [.publish 7, .publish 8, .deliver 0, .finish 0 .resolved, .deliver 0]).runs.length ≤ 1 :=
  blocked_without_acks _ rfl 1 _ (by simp [Event.IsLoss])

example : (run (⟨fun _ => true, false⟩ : Service Nat) 1
    [.publish 7, .publish 8, .deliver 0, .finish 0 .resolved, .deliver 0]).broker.ready = [8] := by
  decide

end ErpApi.Rmq
