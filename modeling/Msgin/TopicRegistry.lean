import Mathlib.Data.List.AList
import Msgin.ConsumerCalls
import Msgin.TransitionRuns

/-!
# The topic registry

`channel.PubSub`: topics by name, each with a publish-subscribe channel that is made by the first
`Subscribe` and dropped after the last `Cancel`. The registry's mutex guards the map, a channel's
own mutex its subscribers, and handlers run under neither. A step of the model is what one call
does under one of the mutexes, or one handler; a handler that uses the registry does so by calls
of its own. Channels have addresses, and a subscription is named by the `Subscribe` that made it.
-/

namespace Msgin.Channel

variable {P H : Type}

inductive FanOutPolicy
  | fanOutAllSucceed
  | fanOutBestEffort
  | outOfRange (n : ℤ)
  deriving DecidableEq

structure PubSubConfig where
  policy : FanOutPolicy
  single : Bool

def defaultPubSubConfig : PubSubConfig := ⟨.fanOutAllSucceed, false⟩

def PubSubOption : Type := PubSubConfig → PubSubConfig

def withConfig (cfg : PubSubConfig) : PubSubOption := fun _ => cfg

/-- The loop of both constructors: the options that are not nil apply, and the first one that is
gives the error. -/
def applyOptions (constructor : String) (opts : List (Option PubSubOption)) :
    PubSubConfig × Option Err :=
  opts.zipIdx.foldl
    (fun acc opt =>
      match opt.1 with
      | some f => (f acc.1, acc.2)
      | none => (acc.1, acc.2.or (some (.wrapped ""
          (": " ++ constructor ++ ": nil option at index " ++ toString opt.2)
          (.permanent (.sentinel .errNilFunc))))))
    (defaultPubSubConfig, none)

structure Subscription (H : Type) where
  id : ℕ
  handler : H

structure PublishSubscribeChannel (H : Type) where
  subs : List (Subscription H)
  cfg : PubSubConfig
  err : Option Err

def newPublishSubscribeChannel (H : Type) (opts : List (Option PubSubOption)) :
    PublishSubscribeChannel H where
  subs := []
  cfg := (applyOptions "channel.NewPublishSubscribeChannel" opts).1
  err := (applyOptions "channel.NewPublishSubscribeChannel" opts).2

namespace PublishSubscribeChannel

def subscribe (c : PublishSubscribeChannel H) (id : ℕ) (h : Option H) :
    Except Err (Subscription H × PublishSubscribeChannel H) :=
  match c.err, h with
  | some err, _ => .error err
  | none, none => .error (.sentinel .errNilHandler)
  | none, some h =>
    if c.cfg.single && !c.subs.isEmpty then .error (.sentinel .errChannelSubscribed)
    else .ok (⟨id, h⟩, { c with subs := c.subs ++ [⟨id, h⟩] })

def remove (c : PublishSubscribeChannel H) (s : Subscription H) : PublishSubscribeChannel H :=
  { c with subs := c.subs.eraseP fun x => x.id == s.id }

def isEmpty (c : PublishSubscribeChannel H) : Bool := c.subs.isEmpty

end PublishSubscribeChannel

def safeFanOut : Outcome (Option Err) → Option Err
  | .returned err => err
  | .panicked r => some (.wrapped "" (": " ++ r) (.sentinel .errHandlerPanic))

/-- What the loop of `Send` does with the error of a subscriber. -/
def collect (policy : FanOutPolicy) (errs : List Err) : Option Err → List Err
  | none => errs
  | some err => if policy = .fanOutBestEffort then errs else errs ++ [err]

structure TopicSubscription (H : Type) where
  topic : String
  ch : ℕ
  inner : Subscription H

structure PubSub (H : Type) where
  -- The call that holds the mutex.
  mu : Option ℕ
  topics : AList fun _ : String => ℕ
  chans : ℕ → PublishSubscribeChannel H
  -- The number of channels made.
  made : ℕ
  cfg : PubSubConfig
  err : Option Err

/-- `NewPublishSubscribeChannel(withConfig(p.cfg))`. -/
def topicChannel (H : Type) (cfg : PubSubConfig) : PublishSubscribeChannel H :=
  newPublishSubscribeChannel H [some (withConfig cfg)]

def newPubSub (H : Type) (opts : List (Option PubSubOption)) : PubSub H :=
  let applied := applyOptions "channel.NewPubSub" opts
  ⟨none, ∅, fun _ => topicChannel H applied.1, 0, applied.1, applied.2⟩

namespace PubSub

/-- `Subscribe` takes the mutex and finds or makes the topic's channel. -/
def openTopic (p : PubSub H) (t : ℕ) (topic : String) : ℕ × PubSub H :=
  match p.topics.lookup topic with
  | some ch => (ch, { p with mu := some t })
  | none =>
    (p.made,
      { p with
        mu := some t
        topics := p.topics.insert topic p.made
        chans := Function.update p.chans p.made (topicChannel H p.cfg)
        made := p.made + 1 })

def setChannel (p : PubSub H) (ch : ℕ) (c : PublishSubscribeChannel H) : PubSub H :=
  { p with chans := Function.update p.chans ch c }

def unlock (p : PubSub H) : PubSub H := { p with mu := none }

def dropTopic (p : PubSub H) (topic : String) : PubSub H :=
  { p with topics := p.topics.erase topic }

end PubSub

inductive TopicCall (P H : Type)
  | idle
  -- `Subscribe` between its lookup and the channel's own `Subscribe`.
  | registering (topic : String) (ch : ℕ) (h : H)
  | subscribed (sub : TopicSubscription H)
  -- `Publish` after its lookup, and in the loop of `Send` with the subscribers still to come.
  | sending (ch : ℕ) (msg : Message P)
  | fanning (policy : FanOutPolicy) (msg : Message P) (rest : List (Subscription H))
      (errs : List Err)
  -- `Cancel` after the removal, under the mutex, and at its end.
  | dropping (sub : TopicSubscription H)
  | checking (sub : TopicSubscription H)
  | cancelled (sub : TopicSubscription H)
  | returned (err : Option Err)

def TopicCall.isIdle : TopicCall P H → Bool
  | idle => true
  | registering _ _ _ | subscribed _ | sending _ _ | fanning _ _ _ _ | dropping _ | checking _
  | cancelled _ | returned _ => false

structure HandlerCall (P H : Type) where
  publish : ℕ
  sub : Subscription H
  msg : Message P

structure TopicState (P H : Type) where
  pubSub : PubSub H
  calls : ℕ → TopicCall P H
  -- The subscriptions whose `once` has fired.
  once : List ℕ
  handled : List (HandlerCall P H)

inductive TopicLabel (P H : Type)
  | subscribe (t : ℕ) (topic : String) (h : Option H)
  | register (t : ℕ)
  | publish (t : ℕ) (topic : String) (msg : Message P)
  | snapshot (t : ℕ)
  -- The next handler, with what it returns or panics with.
  | handle (t : ℕ) (o : Outcome (Option Err))
  | join (t : ℕ)
  -- `Cancel` of the subscription that the call `c` returned, up to the removal.
  | cancel (t c : ℕ)
  | lock (t : ℕ)
  | drop (t : ℕ)

namespace TopicState

def initial (P H : Type) (opts : List (Option PubSubOption)) : TopicState P H :=
  ⟨newPubSub H opts, fun _ => .idle, [], []⟩

def put (s : TopicState P H) (t : ℕ) (c : TopicCall P H) : TopicState P H :=
  { s with calls := Function.update s.calls t c }

def record (s : TopicState P H) (c : HandlerCall P H) : TopicState P H :=
  { s with handled := s.handled ++ [c] }

/-- `subscription.Cancel`. -/
def cancelOnce (s : TopicState P H) (sub : TopicSubscription H) : TopicState P H :=
  if sub.inner.id ∈ s.once then s
  else
    { s with
      pubSub := s.pubSub.setChannel sub.ch ((s.pubSub.chans sub.ch).remove sub.inner)
      once := sub.inner.id :: s.once }

def step (s : TopicState P H) : TopicLabel P H → Option (TopicState P H)
  | .subscribe t topic h =>
    if !(s.calls t).isIdle then none
    else
      match s.pubSub.err, h with
      | some err, _ => some (s.put t (.returned (some err)))
      | none, none => some (s.put t (.returned (some (.sentinel .errNilHandler))))
      | none, some h =>
        if s.pubSub.mu.isSome then none
        else
          some ({ s with pubSub := (s.pubSub.openTopic t topic).2 }.put t
            (.registering topic (s.pubSub.openTopic t topic).1 h))
  | .register t =>
    match s.calls t with
    | .registering topic ch h =>
      match (s.pubSub.chans ch).subscribe t (some h) with
      | .error err => some ({ s with pubSub := s.pubSub.unlock }.put t (.returned (some err)))
      | .ok (inner, c) =>
        some ({ s with pubSub := (s.pubSub.setChannel ch c).unlock }.put t
          (.subscribed ⟨topic, ch, inner⟩))
    | _ => none
  | .publish t topic msg =>
    if !(s.calls t).isIdle then none
    else
      match s.pubSub.err with
      | some err => some (s.put t (.returned (some err)))
      | none =>
        if s.pubSub.mu.isSome then none
        else
          match s.pubSub.topics.lookup topic with
          | none => some (s.put t (.returned none))
          | some ch => some (s.put t (.sending ch msg))
  | .snapshot t =>
    match s.calls t with
    | .sending ch msg =>
      match (s.pubSub.chans ch).err with
      | some err => some (s.put t (.returned (some err)))
      | none =>
        some (s.put t
          (.fanning (s.pubSub.chans ch).cfg.policy msg (s.pubSub.chans ch).subs []))
    | _ => none
  | .handle t o =>
    match s.calls t with
    | .fanning policy msg (sub :: rest) errs =>
      some ((s.record ⟨t, sub, msg⟩).put t
        (.fanning policy msg rest (collect policy errs (safeFanOut o))))
    | _ => none
  | .join t =>
    match s.calls t with
    | .fanning _ _ [] errs => some (s.put t (.returned (Err.joinAll errs)))
    | _ => none
  | .cancel t c =>
    if !(s.calls t).isIdle then none
    else
      match s.calls c with
      | .subscribed sub => some ((s.cancelOnce sub).put t (.dropping sub))
      | _ => none
  | .lock t =>
    match s.calls t with
    | .dropping sub =>
      if s.pubSub.mu.isSome then none
      else if s.pubSub.topics.lookup sub.topic = some sub.ch then
        some ({ s with pubSub.mu := some t }.put t (.checking sub))
      else some (s.put t (.cancelled sub))
    | _ => none
  | .drop t =>
    match s.calls t with
    | .checking sub =>
      if (s.pubSub.chans sub.ch).isEmpty then
        some ({ s with pubSub := (s.pubSub.dropTopic sub.topic).unlock }.put t (.cancelled sub))
      else some ({ s with pubSub := s.pubSub.unlock }.put t (.cancelled sub))
    | _ => none

end TopicState

end Msgin.Channel
