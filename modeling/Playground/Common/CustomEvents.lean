import Mathlib.Data.List.Basic
import Playground.Library.Runs

/-!
# `PgCommon.sendAndReceiveCustomEvent`

`client/src/utils/pg/common.ts` and `client/src/hooks/useSendAndReceiveCustomEvent.tsx`. A call
dispatches a DOM event with its data and then listens to a second event for the reply; the mounted
handler answers the first event by running a callback and dispatching the second one when the
promise of the callback settles. Both event names are built from the name of the channel alone.

`Channel` is one such pair of event names: the handlers that are running, the callers that are
listening, and what the promise of each caller has settled with. `step` takes it through the two
events that reach it, a call and the settlement of a running handler. `replies` records what each
handler produced and is read by no branch.

`OwnReplies` is what a caller relies on: its promise settles with the reply produced for its own
data, and a rejection reaches only the call that caused it. It fails
(`not_ownReplies_of_overlapping_calls`): the reply event carries no trace of its call, so whichever
handler settles first answers every caller. `guard` names the events after which it does not, and
`ownReplies_iff_guarded` proves that it holds along every run whose events meet the guard, while an
event that breaks the guard is followed by a violation at the next settlement at the latest.

Not formalized here: a callback that throws before it returns a promise, and several handlers
mounted for one event name.
-/

set_option autoImplicit false
set_option relaxedAutoImplicit false

namespace Playground.Common.CustomEvents

open Library

/-! ### The two event names of a channel -/

/-- What a rejected promise was rejected with: `null` or `undefined`, of which no property can be
read, or any other value, with its property `message` where it has one. -/
inductive Reason
  | nullish
  | thrown (message : Option String)
  deriving DecidableEq

/-- How the promise of the handler's callback settles. -/
inductive Reply (Value : Type*)
  | fulfilled (value : Value)
  | rejected (reason : Reason)
  deriving DecidableEq

/-- The `detail` of a receive event. An absent property reads `undefined`. -/
structure Detail (Value : Type*) where
  data : Option Value
  error : Option String
  deriving DecidableEq

/-- How the promise of a caller settles: with the `data` of the detail, or with an error that
carries a message. -/
inductive Settlement (Value : Type*)
  | resolved (data : Option Value)
  | rejected (message : String)
  deriving DecidableEq

/-- A running `handleSend`: the call whose event it answers and the data of that event. -/
structure Handler (Data : Type*) where
  caller : ℕ
  data : Data
  deriving DecidableEq

/-- The pair of event names that belongs to one channel. Callers are numbered in the order of their
calls. -/
structure Channel (Data Value : Type*) where
  callers : ℕ
  handlers : List (Handler Data)
  listeners : List ℕ
  settled : List (ℕ × Settlement Value)
  replies : List (ℕ × Reply Value)
  deriving DecidableEq

/-- What can happen on a channel: a call with its data, or the settlement of the callback that runs
for a caller. -/
inductive Event (Data Value : Type*)
  | call (data : Data)
  | settle (caller : ℕ) (reply : Reply Value)

variable {Data Value : Type*}

/-- The channel before the first call. -/
def initial : Channel Data Value where
  callers := 0
  handlers := []
  listeners := []
  settled := []
  replies := []

/-- The listener of a caller: `if (ev.detail.error)` is false of `undefined` and of the empty
string. -/
def handleReceive (detail : Detail Value) : Settlement Value :=
  match detail.error with
  | some message => if message = "" then .resolved detail.data else .rejected message
  | none => .resolved detail.data

/-- Dispatching a receive event: every listener is called with the same detail, and each of them
removes itself. -/
def dispatchReceive (channel : Channel Data Value) (detail : Detail Value) : Channel Data Value :=
  { channel with
    listeners := []
    settled := channel.settled ++
      channel.listeners.map fun caller ↦ (caller, handleReceive detail) }

/-- The detail that `handleSend` dispatches for a reply. In the `catch` block `e.message` throws
when `e` is nullish, and nothing is dispatched. -/
def replyDetail : Reply Value → Option (Detail Value)
  | .fulfilled value => some ⟨some value, none⟩
  | .rejected .nullish => none
  | .rejected (.thrown message) => some ⟨none, message⟩

/-- `sendAndReceiveCustomEvent`: the handler starts while the send event is dispatched, and the
caller listens afterwards. -/
def sendAndReceiveCustomEvent (channel : Channel Data Value) (data : Data) : Channel Data Value :=
  { channel with
    callers := channel.callers + 1
    handlers := channel.handlers ++ [⟨channel.callers, data⟩]
    listeners := channel.listeners ++ [channel.callers] }

/-- `handleSend` from the settlement of its callback on. -/
def handleSend (channel : Channel Data Value) (caller : ℕ) (reply : Reply Value) :
    Channel Data Value :=
  let finished := { channel with
    handlers := channel.handlers.filter fun handler ↦ handler.caller ≠ caller
    replies := channel.replies ++ [(caller, reply)] }
  match replyDetail reply with
  | some detail => dispatchReceive finished detail
  | none => finished

/-- One event. A callback can settle only while it runs. -/
def step (channel : Channel Data Value) : Event Data Value → Option (Channel Data Value)
  | .call data => some (sendAndReceiveCustomEvent channel data)
  | .settle caller reply =>
    if channel.handlers.any fun handler ↦ handler.caller = caller then
      some (handleSend channel caller reply)
    else none

/-! ### What a caller relies on -/

/-- A settlement delivers a reply: the same value, or a rejection, with the message of the reply
where it has one. -/
def Delivers : Reply Value → Settlement Value → Prop
  | .fulfilled value, .resolved data => data = some value
  | .rejected (.thrown (some message)), .rejected delivered => delivered = message
  | .rejected _, .rejected _ => True
  | _, _ => False

/-- Every caller that has settled was delivered the reply produced for its own data, and every
reply that has been produced was delivered to its caller. -/
structure OwnReplies (channel : Channel Data Value) : Prop where
  own : ∀ caller settlement, (caller, settlement) ∈ channel.settled →
    ∃ reply, (caller, reply) ∈ channel.replies ∧ Delivers reply settlement
  delivered : ∀ caller reply, (caller, reply) ∈ channel.replies →
    ∃ settlement, (caller, settlement) ∈ channel.settled ∧ Delivers reply settlement

/-- The events that keep the replies apart: a call comes while no handler runs, and a rejection has
a message that is not empty. -/
def guard (channel : Channel Data Value) : Event Data Value → Prop
  | .call _ => channel.handlers = []
  | .settle _ (.fulfilled _) => True
  | .settle _ (.rejected reason) => ∃ message, reason = .thrown (some message) ∧ message ≠ ""

/-! ### Guarded runs -/

/-- The channels of a guarded run: at most one handler runs, its caller is the only one that
listens, the recorded callers have called, a running handler has not replied, and the replies so
far have reached their callers. -/
structure Serving (channel : Channel Data Value) : Prop where
  listeners_eq : channel.listeners = channel.handlers.map Handler.caller
  at_most_one : channel.handlers.length ≤ 1
  running_lt : ∀ handler ∈ channel.handlers, handler.caller < channel.callers
  replied_lt : ∀ caller reply, (caller, reply) ∈ channel.replies → caller < channel.callers
  unreplied : ∀ handler ∈ channel.handlers, ∀ reply, (handler.caller, reply) ∉ channel.replies
  ownReplies : OwnReplies channel

/-- Nothing has been said on the initial channel. -/
theorem serving_initial : Serving (initial : Channel Data Value) :=
  ⟨rfl, by simp [initial], by simp [initial], by simp [initial], by simp [initial],
    ⟨by simp [initial], by simp [initial]⟩⟩

/-- What a settlement of a serving channel finds: the one handler that runs. -/
theorem handlers_eq_of_settle {channel after : Channel Data Value} {caller : ℕ}
    {reply : Reply Value} (hserving : Serving channel)
    (hstep : step channel (.settle caller reply) = some after) :
    (∃ data, channel.handlers = [⟨caller, data⟩]) ∧ after = handleSend channel caller reply := by
  by_cases hruns : channel.handlers.any fun handler ↦ handler.caller = caller
  · have hafter : handleSend channel caller reply = after := by simpa [step, hruns] using hstep
    refine ⟨?_, hafter.symm⟩
    obtain ⟨handler, hmem, hcaller⟩ := List.any_eq_true.mp hruns
    have hcaller : handler.caller = caller := by simpa using hcaller
    have hone := hserving.at_most_one
    match hhandlers : channel.handlers with
    | [] => simp [hhandlers] at hmem
    | [only] =>
      have hsame : handler = only := by simpa [hhandlers] using hmem
      subst hsame hcaller
      exact ⟨handler.data, rfl⟩
    | _ :: _ :: _ => simp [hhandlers] at hone
  · simp [step, hruns] at hstep

/-- A call on a serving channel on which no handler runs. -/
theorem serving_call {channel : Channel Data Value} (hserving : Serving channel)
    (hidle : channel.handlers = []) (data : Data) :
    Serving (sendAndReceiveCustomEvent channel data) where
  listeners_eq := by
    have hnone := hserving.listeners_eq
    simp [sendAndReceiveCustomEvent, hnone]
  at_most_one := by simp [sendAndReceiveCustomEvent, hidle]
  running_lt := by
    intro handler hmem
    have hnew : handler = ⟨channel.callers, data⟩ := by
      simpa [sendAndReceiveCustomEvent, hidle] using hmem
    show handler.caller < channel.callers + 1
    simp [hnew]
  replied_lt := fun caller reply hmem ↦
    Nat.lt_succ_of_lt (hserving.replied_lt caller reply hmem)
  unreplied := by
    intro handler hmem reply hreplied
    have hnew : handler = ⟨channel.callers, data⟩ := by
      simpa [sendAndReceiveCustomEvent, hidle] using hmem
    have hlt : handler.caller < channel.callers := hserving.replied_lt _ reply hreplied
    simp [hnew] at hlt
  ownReplies := ⟨hserving.ownReplies.own, hserving.ownReplies.delivered⟩

/-- A reply that is dispatched and heard for what it is, by the only caller that listens. -/
theorem ownReplies_dispatch {channel : Channel Data Value} {caller : ℕ} {reply : Reply Value}
    {detail : Detail Value} (hown : OwnReplies channel) (hlisteners : channel.listeners = [caller])
    (hdetail : replyDetail reply = some detail) (hheard : Delivers reply (handleReceive detail)) :
    OwnReplies (handleSend channel caller reply) := by
  constructor
  · intro other settlement hmem
    simp only [handleSend, hdetail, dispatchReceive, hlisteners, List.map_cons, List.map_nil,
      List.mem_append, List.mem_singleton] at hmem ⊢
    rcases hmem with hbefore | hnew
    · obtain ⟨earlier, hreplied, hdelivers⟩ := hown.own _ _ hbefore
      exact ⟨earlier, Or.inl hreplied, hdelivers⟩
    · obtain ⟨rfl, rfl⟩ := Prod.mk.inj hnew
      exact ⟨reply, Or.inr rfl, hheard⟩
  · intro other earlier hmem
    simp only [handleSend, hdetail, dispatchReceive, hlisteners, List.map_cons, List.map_nil,
      List.mem_append, List.mem_singleton] at hmem ⊢
    rcases hmem with hbefore | hnew
    · obtain ⟨settlement, hsettled, hdelivers⟩ := hown.delivered _ _ hbefore
      exact ⟨settlement, Or.inl hsettled, hdelivers⟩
    · obtain ⟨rfl, rfl⟩ := Prod.mk.inj hnew
      exact ⟨_, Or.inr rfl, hheard⟩

/-- The replies that the guard admits are dispatched and heard for what they are. -/
theorem delivers_of_guard {channel : Channel Data Value} {caller : ℕ} {reply : Reply Value}
    (hguard : guard channel (.settle caller reply)) :
    ∃ detail, replyDetail reply = some detail ∧ Delivers reply (handleReceive detail) := by
  cases reply with
  | fulfilled value => exact ⟨_, rfl, rfl⟩
  | rejected reason =>
    obtain ⟨message, rfl, hmessage⟩ := hguard
    refine ⟨_, rfl, ?_⟩
    simp [handleReceive, hmessage, Delivers]

/-- A settlement that the guard admits keeps a channel serving. -/
theorem serving_settle {channel after : Channel Data Value} {caller : ℕ} {reply : Reply Value}
    (hserving : Serving channel) (hguard : guard channel (.settle caller reply))
    (hstep : step channel (.settle caller reply) = some after) : Serving after := by
  obtain ⟨⟨data, hhandlers⟩, rfl⟩ := handlers_eq_of_settle hserving hstep
  obtain ⟨detail, hdetail, hheard⟩ := delivers_of_guard hguard
  have hlisteners : channel.listeners = [caller] := by simp [hserving.listeners_eq, hhandlers]
  have hlt : caller < channel.callers :=
    hserving.running_lt ⟨caller, data⟩ (by simp [hhandlers])
  constructor
  · simp [handleSend, hdetail, dispatchReceive, hhandlers]
  · simp [handleSend, hdetail, dispatchReceive, hhandlers]
  · simp [handleSend, hdetail, dispatchReceive, hhandlers]
  · intro other earlier hmem
    simp only [handleSend, hdetail, dispatchReceive, List.mem_append, List.mem_singleton] at hmem ⊢
    rcases hmem with hbefore | hnew
    · exact hserving.replied_lt _ _ hbefore
    · rwa [(Prod.mk.inj hnew).1]
  · simp [handleSend, hdetail, dispatchReceive, hhandlers]
  · exact ownReplies_dispatch hserving.ownReplies hlisteners hdetail hheard

/-- A guarded run leaves the channel serving. -/
theorem serving_of_guarded {events : List (Event Data Value)} {finish : Channel Data Value}
    (hrun : Run (Guarded (StepsTo step) guard) initial events finish) : Serving finish := by
  refine hrun.invariant_guarded (fun before event after hbefore hguard hstep ↦ ?_) serving_initial
  cases event with
  | call data =>
    have hafter : sendAndReceiveCustomEvent before data = after := by
      simpa [StepsTo, step] using hstep
    rw [← hafter]
    exact serving_call hbefore hguard data
  | settle caller reply => exact serving_settle hbefore hguard hstep

/-! ### Events that break the guard -/

/-- A call that comes while a handler runs: the value of that handler is delivered to the new
caller as well, whose own handler has not replied. -/
theorem not_ownReplies_call {channel : Channel Data Value} (hserving : Serving channel)
    (hbreak : channel.handlers ≠ []) (data : Data) (value : Value) :
    ∃ caller finish,
      step (sendAndReceiveCustomEvent channel data) (.settle caller (.fulfilled value)) =
        some finish ∧ ¬ OwnReplies finish := by
  obtain ⟨handler, rest, hhandlers⟩ := List.exists_cons_of_ne_nil hbreak
  have hlt : handler.caller < channel.callers :=
    hserving.running_lt handler (by simp [hhandlers])
  refine ⟨handler.caller, _, by simp [step, sendAndReceiveCustomEvent, hhandlers]; rfl, ?_⟩
  intro hown
  obtain ⟨reply, hreplied, -⟩ := hown.own channel.callers (.resolved (some value)) (by
    simp [handleSend, replyDetail, dispatchReceive, handleReceive])
  have hreplied : (channel.callers, reply) ∈
      channel.replies ++ [(handler.caller, .fulfilled value)] := hreplied
  rcases List.mem_append.mp hreplied with hbefore | hnew
  · exact absurd (hserving.replied_lt _ _ hbefore) (Nat.lt_irrefl _)
  · have hsame : channel.callers = handler.caller := by
      simpa using (Prod.mk.inj (List.mem_singleton.mp hnew)).1
    omega

/-- A rejection without a message, or with an empty one, is not delivered as a rejection: its
caller resolves with `undefined`, or never settles. -/
theorem not_ownReplies_settle {channel after : Channel Data Value} {caller : ℕ}
    {reply : Reply Value} (hserving : Serving channel)
    (hbreak : ¬ guard channel (.settle caller reply))
    (hstep : step channel (.settle caller reply) = some after) : ¬ OwnReplies after := by
  obtain ⟨⟨data, hhandlers⟩, rfl⟩ := handlers_eq_of_settle hserving hstep
  have hlisteners : channel.listeners = [caller] := by simp [hserving.listeners_eq, hhandlers]
  have hunreplied : ∀ earlier, (caller, earlier) ∉ channel.replies :=
    hserving.unreplied ⟨caller, data⟩ (by simp [hhandlers])
  intro hown
  have hundefined : ∀ message, reply = .rejected (.thrown message) →
      handleReceive (⟨none, message⟩ : Detail Value) ≠ .resolved none := by
    rintro message rfl hresolved
    obtain ⟨earlier, hreplied, hdelivers⟩ := hown.own caller (.resolved none) (by
      simp [handleSend, replyDetail, dispatchReceive, hlisteners, hresolved])
    have hreplied : (caller, earlier) ∈
        channel.replies ++ [(caller, .rejected (.thrown message))] := hreplied
    rcases List.mem_append.mp hreplied with hbefore | hnew
    · exact hunreplied earlier hbefore
    · rw [(Prod.mk.inj (List.mem_singleton.mp hnew)).2] at hdelivers
      cases message <;> exact hdelivers
  match reply with
  | .fulfilled value => exact hbreak trivial
  | .rejected .nullish =>
    obtain ⟨settlement, hsettled, -⟩ := hown.delivered caller (.rejected .nullish) (by
      simp [handleSend, replyDetail])
    obtain ⟨earlier, hreplied, -⟩ := hserving.ownReplies.own caller settlement hsettled
    exact hunreplied earlier hreplied
  | .rejected (.thrown none) => exact hundefined none rfl rfl
  | .rejected (.thrown (some message)) =>
    by_cases hmessage : message = ""
    · exact hundefined (some message) rfl (by simp [handleReceive, hmessage])
    · exact hbreak ⟨message, rfl, hmessage⟩

/-- Along every run whose events meet the guard each caller gets its own reply, and an event that
breaks the guard is followed by a violation: at once if it is a settlement, and with the next value
that a handler produces if it is a call. -/
theorem ownReplies_iff_guarded :
    (∀ events (finish : Channel Data Value),
      Run (Guarded (StepsTo step) guard) initial events finish → OwnReplies finish) ∧
    ∀ events (channel : Channel Data Value) event after,
      Run (Guarded (StepsTo step) guard) initial events channel →
        step channel event = some after → ¬ guard channel event → Nonempty Value →
          ∃ replies finish, Run (StepsTo step) after replies finish ∧ ¬ OwnReplies finish := by
  refine ⟨fun events finish hrun ↦ (serving_of_guarded hrun).ownReplies, ?_⟩
  rintro events channel event after hrun hstep hbreak ⟨value⟩
  have hserving := serving_of_guarded hrun
  cases event with
  | call data =>
    have hafter : sendAndReceiveCustomEvent channel data = after := by simpa [step] using hstep
    obtain ⟨caller, finish, hnext, hviolated⟩ := not_ownReplies_call hserving hbreak data value
    rw [hafter] at hnext
    exact ⟨[.settle caller (.fulfilled value)], finish, .single hnext, hviolated⟩
  | settle caller reply =>
    exact ⟨[], after, .nil after, not_ownReplies_settle hserving hbreak hstep⟩

/-- One call after the other gets its own reply, and a call made while a handler runs leads to a
violation. -/
theorem ownReplies_iff_guarded_two_calls :
    @OwnReplies String ℕ ⟨2, [], [], [(0, .resolved (some 7)), (1, .rejected "failed")],
        [(0, .fulfilled 7), (1, .rejected (.thrown (some "failed")))]⟩ ∧
      ∃ replies finish, Run (StepsTo step)
        (⟨2, [⟨0, "clear"⟩, ⟨1, "build"⟩], [0, 1], [], []⟩ : Channel String ℕ) replies finish ∧
          ¬ OwnReplies finish := by
  constructor
  · refine ownReplies_iff_guarded.1 [.call "clear", .settle 0 (.fulfilled 7), .call "build",
      .settle 1 (.rejected (.thrown (some "failed")))] _ ?_
    exact .cons ⟨rfl, rfl⟩ (.cons ⟨trivial, rfl⟩
      (.cons ⟨rfl, rfl⟩ (.single ⟨⟨_, rfl, by decide⟩, rfl⟩)))
  · refine ownReplies_iff_guarded.2 [.call "clear"] ⟨1, [⟨0, "clear"⟩], [0], [], []⟩
      (.call "build") _ ?_ rfl (by simp [guard]) ⟨7⟩
    exact .single ⟨rfl, rfl⟩

/-- Two calls overlap and the handler of the second one settles first: the first caller is given
the second one's value. -/
theorem not_ownReplies_of_overlapping_calls :
    ¬ ∀ events (finish : Channel String ℕ),
      Run (StepsTo step) initial events finish → OwnReplies finish := by
  intro hall
  have hown := hall [.call "clear", .call "build", .settle 1 (.fulfilled 7)] _
    (Run.of_foldlM rfl)
  obtain ⟨reply, hreplied, -⟩ := hown.own 0 (.resolved (some 7)) (by decide)
  have hreplied : (0, reply) ∈ [(1, (.fulfilled 7 : Reply ℕ))] := hreplied
  simp at hreplied

end Playground.Common.CustomEvents
