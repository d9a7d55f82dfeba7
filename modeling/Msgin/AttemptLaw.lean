import Msgin.AttemptHistory

/-!
# The count of an attempt tracker

The count that `observe` returns, from the calls before it, the count of an id that keeps arriving,
and the ids that a sweep leaves.
-/

namespace Msgin

open TrackerCall

variable {ttl : AttemptTTL} {id : String} {cs : List TrackerCall} {now : ℤ}

/-- The clock does not go back from one call to a later one. -/
def ClockForward (cs : List TrackerCall) : Prop := cs.Pairwise fun c d => c.now ≤ d.now

theorem observe_history (ttl : AttemptTTL) (id : String) (cs : List TrackerCall) (now : ℤ) :
    ∃ since, SinceReset ttl id cs since ∧
      ((AttemptTracker.history ttl cs).observe now id).1 = (observedAt id since).length + 1 := by
  obtain ⟨since, hsince, h⟩ := exists_remembers ttl id cs
  exact ⟨since, hsince, congrArg (· + 1) h.count_eq⟩

theorem sinceReset_self (hmono : ClockForward (cs ++ [⟨.observe id, now⟩]))
    (hkept : ∀ c ∈ cs, c.op ≠ .evict id)
    (hgaps : (observedAt id cs ++ [now]).IsChain fun u v => v - u < ttl.nanos) :
    SinceReset ttl id cs cs := by
  refine ⟨[], rfl, .inl rfl, fun pre c post hsplit hresets => ?_⟩
  rw [List.nil_append] at hresets
  rcases hresets with hevict | ⟨hsweep, u, hu, hle⟩
  · exact hkept c (hsplit ▸ List.mem_append_right pre List.mem_cons_self) hevict
  · have hlater : ∀ v ∈ observedAt id post ++ [now], c.now ≤ v := by
      rw [hsplit, List.append_assoc] at hmono
      have hpost := (List.pairwise_append.mp hmono).2.1
      rw [List.cons_append, List.pairwise_cons] at hpost
      intro v hv
      rcases List.mem_append.mp hv with hv | hv
      · exact hpost.1 _ (List.mem_append_left _ (mem_observedAt.mp hv))
      · obtain rfl := List.mem_singleton.mp hv
        exact hpost.1 _ (List.mem_append_right _ (List.mem_singleton_self _))
    have hnone : observedAt id [c] = [] := by simp [observedAt, observes, hsweep]
    have hjoin : observedAt id cs = observedAt id pre ++ observedAt id post := by
      rw [hsplit, ← List.singleton_append, observedAt_append, observedAt_append, hnone,
        List.nil_append]
    rw [hjoin, List.append_assoc, List.isChain_append] at hgaps
    obtain ⟨v, hv⟩ : ∃ v, v ∈ (observedAt id post ++ [now]).head? := by
      cases observedAt id post with
      | nil => exact ⟨now, rfl⟩
      | cons v vs => exact ⟨v, rfl⟩
    have hgap := hgaps.2.2 u hu v hv
    have hafter := hlater v (List.mem_of_mem_head? hv)
    omega

theorem observed_of_swept (hmono : ClockForward (cs ++ [⟨.sweep, now⟩])) {e : AttemptEntry}
    (h : (AttemptTracker.history ttl (cs ++ [⟨.sweep, now⟩])).m id = some e) :
    ⟨.observe id, e.lastSeen⟩ ∈ cs ∧ now - ttl.nanos < e.lastSeen ∧ e.lastSeen ≤ now := by
  rw [AttemptTracker.history, List.foldl_append] at h
  obtain ⟨hentry, hfresh⟩ := Option.filter_eq_some_iff.mp h
  have hmem : ⟨.observe id, e.lastSeen⟩ ∈ cs := by
    obtain ⟨since, -, hremembers⟩ := exists_remembers ttl id cs
    cases hremembers with
    | nothing gone unseen => simp [AttemptTracker.history, hentry] at gone
    | entry u kept latest =>
        obtain rfl := Option.some.inj (hentry.symm.trans kept)
        exact mem_observedAt.mp (List.mem_of_mem_getLast? latest)
  have hsub : ¬ttl.nanos ≤ now - e.lastSeen := by
    rw [← ttl.le_timeSub_iff]
    simpa using hfresh
  have hle : e.lastSeen ≤ now :=
    (List.pairwise_append.mp hmono).2.2 _ hmem _ (List.mem_singleton_self _)
  exact ⟨hmem, by omega, hle⟩

/-- What a tracker answers and keeps after the calls `cs`. -/
structure TrackerLaw (ttl : AttemptTTL) (cs : List TrackerCall) : Prop where
  /-- `observe` returns one plus the observations since the last reset, of which there is one. -/
  counts : ∀ id now, ∃ since, (∀ since', SinceReset ttl id cs since' ↔ since' = since) ∧
    ((AttemptTracker.history ttl cs).observe now id).1 = (observedAt id since).length + 1
  /-- Calls for other ids do not count. -/
  alone : ∀ id now, ((AttemptTracker.history ttl cs).observe now id).1 =
    ((AttemptTracker.history ttl (cs.filter (concerns id))).observe now id).1
  /-- An id that keeps arriving within `ttl` and is not evicted is never forgotten. -/
  steady : ∀ id now, ClockForward (cs ++ [⟨.observe id, now⟩]) → (∀ c ∈ cs, c.op ≠ .evict id) →
    ((observedAt id cs ++ [now]).IsChain fun u v => v - u < ttl.nanos) →
    ((AttemptTracker.history ttl cs).observe now id).1 = (observedAt id cs).length + 1
  /-- Right after a sweep every id that is tracked was observed less than `ttl` before. -/
  swept : ∀ now, ClockForward (cs ++ [⟨.sweep, now⟩]) → ∀ id e,
    (AttemptTracker.history ttl (cs ++ [⟨.sweep, now⟩])).m id = some e →
    ∃ u, ⟨.observe id, u⟩ ∈ cs ∧ now - ttl.nanos < u ∧ u ≤ now
  /-- The calls that a consumer's routine makes are calls of the tracker. -/
  routine : ∀ {P T : Type} now (es : List (Event P T)),
    (AttemptTracker.history ttl cs).after now es =
      AttemptTracker.history ttl (cs ++ es.filterMap (ofEvent now))

/-- The law of the tracker, after every sequence of calls. -/
theorem attemptTracker_law (ttl : AttemptTTL) (cs : List TrackerCall) : TrackerLaw ttl cs where
  counts id now := by
    obtain ⟨since, hsince, hcount⟩ := observe_history ttl id cs now
    refine ⟨since, fun since' => ⟨fun h => h.unique hsince, ?_⟩, hcount⟩
    rintro rfl
    exact hsince
  alone id now := by
    have hsame := history_filter ttl id cs
    simp only [AttemptTracker.observe, AttemptTracker.count, hsame]
  steady id now hmono hkept hgaps := by
    obtain ⟨since, hsince, hcount⟩ := observe_history ttl id cs now
    rw [hcount, hsince.unique (sinceReset_self hmono hkept hgaps)]
  swept now hmono id e h :=
    ⟨e.lastSeen, observed_of_swept hmono h⟩
  routine now es := by
    rw [AttemptTracker.history, AttemptTracker.history, List.foldl_append]
    exact AttemptTracker.after_eq_foldl ttl now _ es

end Msgin
