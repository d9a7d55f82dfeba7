import Mathlib.Data.List.Chain
import Msgin.AttemptTracker
import Msgin.CronStream

/-!
# What an attempt tracker remembers

Observations, evictions and sweeps of an attempt tracker, in the order in which its mutex lets them
through. What the tracker counts for an id is the number of its observations since the last call
that made it forget the id: an eviction, or a sweep that came `ttl` after the latest observation.
-/

namespace Msgin

open Cron

/-- What `NewConsumer` accepts as the ttl of its tracker. -/
structure AttemptTTL where
  nanos : ℤ
  pos : 0 < nanos
  le_max : nanos ≤ maxDuration

inductive TrackerOp
  | observe (id : String)
  | evict (id : String)
  | sweep
  deriving DecidableEq

structure TrackerCall where
  op : TrackerOp
  now : ℤ
  deriving DecidableEq

namespace AttemptTracker

def sweep (ttl : AttemptTTL) (now : ℤ) (t : AttemptTracker) : AttemptTracker :=
  ⟨fun id => (t.m id).filter fun e => !decide (ttl.nanos ≤ timeSub now e.lastSeen)⟩

def perform (ttl : AttemptTTL) (t : AttemptTracker) (c : TrackerCall) : AttemptTracker :=
  match c.op with
  | .observe id => (t.observe c.now id).2
  | .evict id => t.evict id
  | .sweep => t.sweep ttl c.now

def history (ttl : AttemptTTL) (cs : List TrackerCall) : AttemptTracker :=
  cs.foldl (perform ttl) .new

end AttemptTracker

/-- The call of the tracker among the calls of a routine. -/
def TrackerCall.ofEvent {P T : Type} (now : ℤ) (e : Event P T) : Option TrackerCall :=
  match e.1 with
  | .observe id => some ⟨.observe id, now⟩
  | .evict id => some ⟨.evict id, now⟩
  | _ => none

theorem AttemptTracker.after_eq_foldl {P T : Type} (ttl : AttemptTTL) (now : ℤ)
    (t : AttemptTracker) (es : List (Event P T)) :
    t.after now es = (es.filterMap (TrackerCall.ofEvent now)).foldl (perform ttl) t := by
  induction es generalizing t with
  | nil => rfl
  | cons e es ih =>
      obtain ⟨q, r⟩ := e
      cases q <;> exact ih _

namespace TrackerCall

def observes (id : String) (c : TrackerCall) : Bool := c.op = .observe id

/-- The calls that can change the entry of `id`. -/
def concerns (id : String) (c : TrackerCall) : Bool :=
  c.op = .observe id || c.op = .evict id || c.op = .sweep

/-- The times of the observations of `id`. -/
def observedAt (id : String) (cs : List TrackerCall) : List ℤ :=
  (cs.filter (observes id)).map now

/-- The call, after `cs`, makes the tracker forget `id`: it evicts it, or is a sweep that comes at
least `ttl` after the latest observation. -/
def Resets (ttl : AttemptTTL) (id : String) (cs : List TrackerCall) (c : TrackerCall) : Prop :=
  c.op = .evict id ∨
    c.op = .sweep ∧ ∃ u ∈ (observedAt id cs).getLast?, ttl.nanos ≤ c.now - u

/-- The calls of `cs` since the last one that made the tracker forget `id`. -/
def SinceReset (ttl : AttemptTTL) (id : String) (cs since : List TrackerCall) : Prop :=
  ∃ before, cs = before ++ since ∧
    (before = [] ∨ ∃ pre c, before = pre ++ [c] ∧ Resets ttl id pre c) ∧
    ∀ pre c post, since = pre ++ c :: post → ¬Resets ttl id (before ++ pre) c

variable {ttl : AttemptTTL} {id : String} {cs since : List TrackerCall} {c : TrackerCall}

theorem observedAt_append (id : String) (cs ds : List TrackerCall) :
    observedAt id (cs ++ ds) = observedAt id cs ++ observedAt id ds := by
  rw [observedAt, List.filter_append, List.map_append]
  rfl

theorem observedAt_concat_self (h : c.op = .observe id) :
    observedAt id (cs ++ [c]) = observedAt id cs ++ [c.now] := by
  rw [observedAt_append]
  simp [observedAt, observes, h]

theorem observedAt_concat_of_ne (h : c.op ≠ .observe id) :
    observedAt id (cs ++ [c]) = observedAt id cs := by
  rw [observedAt_append]
  simp [observedAt, observes, h]

theorem mem_observedAt {u : ℤ} : u ∈ observedAt id cs ↔ ⟨.observe id, u⟩ ∈ cs := by
  simp only [observedAt, List.mem_map, List.mem_filter, observes, decide_eq_true_eq]
  constructor
  · rintro ⟨⟨op, now⟩, ⟨hmem, rfl⟩, rfl⟩
    exact hmem
  · intro hmem
    exact ⟨_, ⟨hmem, rfl⟩, rfl⟩

theorem sinceReset_nil : SinceReset ttl id [] [] :=
  ⟨[], rfl, .inl rfl, fun pre c post h => by simp at h⟩

theorem SinceReset.reset (h : Resets ttl id cs c) : SinceReset ttl id (cs ++ [c]) [] :=
  ⟨cs ++ [c], (List.append_nil _).symm, .inr ⟨cs, c, rfl, h⟩, fun pre c post h => by simp at h⟩

theorem SinceReset.concat (h : SinceReset ttl id cs since) (hc : ¬Resets ttl id cs c) :
    SinceReset ttl id (cs ++ [c]) (since ++ [c]) := by
  obtain ⟨before, rfl, hstart, hquiet⟩ := h
  refine ⟨before, List.append_assoc .., hstart, fun pre d post hsplit => ?_⟩
  rcases List.eq_nil_or_concat post with rfl | ⟨post, e, rfl⟩
  · obtain ⟨rfl, heq⟩ := List.append_inj' hsplit rfl
    obtain rfl := List.singleton_inj.mp heq
    exact hc
  · rw [List.concat_eq_append, ← List.cons_append, ← List.append_assoc] at hsplit
    exact hquiet pre d post (List.append_inj' hsplit rfl).1

theorem eq_nil_of_resets {before mid post : List TrackerCall}
    (hquiet : ∀ pre c rest, mid ++ post = pre ++ c :: rest → ¬Resets ttl id (before ++ pre) c)
    (hstart : before ++ mid = [] ∨ ∃ pre c, before ++ mid = pre ++ [c] ∧ Resets ttl id pre c) :
    mid = [] := by
  rcases List.eq_nil_or_concat mid with hnil | ⟨mid, c, rfl⟩
  · exact hnil
  · exfalso
    rw [List.concat_eq_append, ← List.append_assoc] at hstart
    rcases hstart with hnil | ⟨pre, d, hpre, hresets⟩
    · simp at hnil
    · obtain ⟨rfl, heq⟩ := List.append_inj' hpre rfl
      obtain rfl := List.singleton_inj.mp heq
      refine hquiet mid c post ?_ hresets
      rw [List.concat_eq_append, List.append_assoc, List.singleton_append]

theorem SinceReset.unique {since' : List TrackerCall} (h : SinceReset ttl id cs since)
    (h' : SinceReset ttl id cs since') : since = since' := by
  obtain ⟨before, rfl, hstart, hquiet⟩ := h
  obtain ⟨before', hsplit, hstart', hquiet'⟩ := h'
  rcases List.append_eq_append_iff.mp hsplit with ⟨mid, rfl, rfl⟩ | ⟨mid, rfl, rfl⟩
  · rw [eq_nil_of_resets hquiet hstart', List.nil_append]
  · rw [eq_nil_of_resets hquiet' hstart, List.nil_append]

end TrackerCall

open TrackerCall

variable {ttl : AttemptTTL} {id : String} {cs since : List TrackerCall} {c : TrackerCall}
  {t : AttemptTracker}

theorem AttemptTTL.le_timeSub_iff (ttl : AttemptTTL) (now u : ℤ) :
    ttl.nanos ≤ timeSub now u ↔ ttl.nanos ≤ now - u := by
  have hpos := ttl.pos
  have hmax := ttl.le_max
  rw [timeSub, minDuration]
  omega

/-- The entry of `id` after `cs`, where `since` are the calls since the last reset. -/
inductive Remembers (t : AttemptTracker) (id : String) (cs since : List TrackerCall) : Prop
  | nothing (gone : t.m id = none) (unseen : observedAt id since = [])
  | entry (u : ℤ) (kept : t.m id = some ⟨(observedAt id since).length, u⟩)
      (latest : u ∈ (observedAt id cs).getLast?)

namespace Remembers

variable (h : Remembers t id cs since)

include h

theorem count_eq : t.count id = (observedAt id since).length := by
  cases h with
  | nothing gone unseen => simp [AttemptTracker.count, gone, unseen]
  | entry u kept latest => simp [AttemptTracker.count, kept]

theorem observe (now : ℤ) :
    Remembers (t.observe now id).2 id (cs ++ [⟨.observe id, now⟩])
      (since ++ [⟨.observe id, now⟩]) := by
  refine .entry now ?_ ?_
  · rw [observedAt_concat_self rfl, List.length_append, ← h.count_eq]
    exact Function.update_self ..
  · rw [observedAt_concat_self rfl]
    exact List.getLast?_concat ..

theorem idle {t' : AttemptTracker} (hsame : t'.m id = t.m id) (hc : c.op ≠ .observe id) :
    Remembers t' id (cs ++ [c]) (since ++ [c]) := by
  cases h with
  | nothing gone unseen => exact .nothing (hsame.trans gone) (by rw [observedAt_concat_of_ne hc, unseen])
  | entry u kept latest =>
      refine .entry u ?_ ?_
      · rw [hsame, kept, observedAt_concat_of_ne hc]
      · rw [observedAt_concat_of_ne hc]
        exact latest

theorem sweep (hsince : SinceReset ttl id cs since) (now : ℤ) :
    ∃ since', SinceReset ttl id (cs ++ [⟨.sweep, now⟩]) since' ∧
      Remembers (t.sweep ttl now) id (cs ++ [⟨.sweep, now⟩]) since' := by
  have hne : (⟨.sweep, now⟩ : TrackerCall).op ≠ .observe id := by simp
  by_cases hresets : Resets ttl id cs ⟨.sweep, now⟩
  · refine ⟨[], .reset hresets, .nothing ?_ rfl⟩
    cases h with
    | nothing gone unseen => simp [AttemptTracker.sweep, gone]
    | entry u kept latest =>
        obtain ⟨-, u', latest', hle⟩ := hresets.resolve_left (by simp)
        obtain rfl := Option.mem_unique latest latest'
        have hsub := (ttl.le_timeSub_iff now u).mpr hle
        simp [AttemptTracker.sweep, kept, hsub]
  · refine ⟨since ++ [⟨.sweep, now⟩], hsince.concat hresets, h.idle ?_ hne⟩
    cases h with
    | nothing gone unseen => simp [AttemptTracker.sweep, gone]
    | entry u kept latest =>
        have hsub : ¬ttl.nanos ≤ timeSub now u := fun hsub =>
          hresets (.inr ⟨rfl, u, latest, (ttl.le_timeSub_iff now u).mp hsub⟩)
        simp [AttemptTracker.sweep, kept, hsub]

theorem step (hsince : SinceReset ttl id cs since) (c : TrackerCall) :
    ∃ since', SinceReset ttl id (cs ++ [c]) since' ∧
      Remembers (t.perform ttl c) id (cs ++ [c]) since' := by
  obtain ⟨op, now⟩ := c
  cases op with
  | observe id' =>
      have hquiet : ¬Resets ttl id cs ⟨.observe id', now⟩ := by simp [Resets]
      by_cases hid : id' = id
      · subst hid
        exact ⟨_, hsince.concat hquiet, h.observe now⟩
      · refine ⟨_, hsince.concat hquiet, h.idle ?_ (by simpa using hid)⟩
        exact Function.update_of_ne (Ne.symm hid) ..
  | evict id' =>
      by_cases hid : id' = id
      · subst hid
        exact ⟨[], .reset (.inl rfl), .nothing (Function.update_self ..) rfl⟩
      · have hquiet : ¬Resets ttl id cs ⟨.evict id', now⟩ := by simp [Resets, hid]
        refine ⟨_, hsince.concat hquiet, h.idle ?_ (by simp)⟩
        exact Function.update_of_ne (Ne.symm hid) ..
  | sweep => exact h.sweep hsince now

end Remembers

/-- After every sequence of calls the entry of an id is that of its calls since the last reset. -/
theorem exists_remembers (ttl : AttemptTTL) (id : String) (cs : List TrackerCall) :
    ∃ since, SinceReset ttl id cs since ∧ Remembers (.history ttl cs) id cs since := by
  induction cs using List.reverseRecOn with
  | nil => exact ⟨[], sinceReset_nil, .nothing rfl rfl⟩
  | append_singleton cs c ih =>
      obtain ⟨since, hsince, h⟩ := ih
      rw [AttemptTracker.history, List.foldl_append]
      exact h.step hsince c

theorem perform_congr {t' : AttemptTracker} (h : t.m id = t'.m id) (c : TrackerCall) :
    (t.perform ttl c).m id = (t'.perform ttl c).m id := by
  have hcount : t.count id = t'.count id := by rw [AttemptTracker.count, AttemptTracker.count, h]
  obtain ⟨op, now⟩ := c
  cases op with
  | observe id' =>
      by_cases hid : id = id'
      · subst hid
        simp [AttemptTracker.perform, AttemptTracker.observe, hcount]
      · simp [AttemptTracker.perform, AttemptTracker.observe, hid, h]
  | evict id' =>
      by_cases hid : id = id'
      · subst hid
        simp [AttemptTracker.perform, AttemptTracker.evict]
      · simp [AttemptTracker.perform, AttemptTracker.evict, hid, h]
  | sweep => simp [AttemptTracker.perform, AttemptTracker.sweep, h]

theorem perform_of_not_concerns (h : c.concerns id = false) : (t.perform ttl c).m id = t.m id := by
  obtain ⟨op, now⟩ := c
  cases op with
  | observe id' =>
      have hid : id ≠ id' := fun heq => by simp [concerns, heq] at h
      exact Function.update_of_ne hid ..
  | evict id' =>
      have hid : id ≠ id' := fun heq => by simp [concerns, heq] at h
      exact Function.update_of_ne hid ..
  | sweep => simp [concerns] at h

theorem history_filter (ttl : AttemptTTL) (id : String) (cs : List TrackerCall) :
    (AttemptTracker.history ttl (cs.filter (concerns id))).m id =
      (AttemptTracker.history ttl cs).m id := by
  induction cs using List.reverseRecOn with
  | nil => rfl
  | append_singleton cs c ih =>
      rw [List.filter_append, AttemptTracker.history, AttemptTracker.history, List.foldl_append,
        List.foldl_append, List.foldl_cons, List.foldl_nil]
      by_cases hc : c.concerns id = true
      · rw [List.filter_singleton, hc]
        exact perform_congr ih c
      · rw [Bool.not_eq_true] at hc
        rw [List.filter_singleton, hc, perform_of_not_concerns hc]
        exact ih

end Msgin
