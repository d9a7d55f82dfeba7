import Msgin.AggregatorInvariant

/-!
# No message of the aggregator is lost or settled twice

The invariant along every run of `Handle` calls and sweeps, and what it says of them: a
`Handle` call that returned nil left its message in the store or in a settled claim, and a
message leaves the store only with the settlement of one claim whose members had all been
delivered.
-/

namespace Msgin.Routing

open Interaction Prog Memory TransitionRuns KeyedMaps

variable {P : Type}

structure AggregatorInv (s : AggregatorState P) : Prop where
  ledger : LedgerInv s.store (members s.settled)
  obeys : ∀ t g, s.goroutines t = some g → Obeys Allowed (Acked g.given) g.code g.events
  holds : ∀ t g cl, s.goroutines t = some g → held g.events = some cl → s.store.Holds cl
  apart : ∀ t t' g g' cl cl', s.goroutines t = some g → s.goroutines t' = some g' →
    held g.events = some cl → held g'.events = some cl' → t ≠ t' → cl.key ≠ cl'.key
  added : ∀ t g msg, s.goroutines t = some g → Added msg g.events →
    ∃ m, Present s.store (members s.settled) m ∧ StandsFor m msg
  delivered : ∀ e ∈ s.settled, Delivered e.claim e.events

theorem aggregatorInv_initial {maxGroups maxGroupMembers : ℤ} {store : GroupStore P}
    (h : newGroupStore maxGroups maxGroupMembers = .ok store) :
    AggregatorInv (.initial store) where
  ledger := ⟨storeInv_newGroupStore h, by simp [members, AggregatorState.initial],
    by simp [members, AggregatorState.initial], by simp [members, AggregatorState.initial]⟩
  obeys := by simp [AggregatorState.initial]
  holds := by simp [AggregatorState.initial]
  apart := by simp [AggregatorState.initial]
  added := by simp [AggregatorState.initial]
  delivered := by simp [AggregatorState.initial]

section Steps

variable {s : AggregatorState P} {t : ℕ} {g g' : Goroutine P}

theorem AggregatorInv.update (h : AggregatorInv s) {store : GroupStore P}
    {settled : List (Settlement P)} (hledger : LedgerInv store (members settled))
    (hpresent : ∀ m, Present s.store (members s.settled) m → Present store (members settled) m)
    (hdelivered : ∀ e ∈ settled, Delivered e.claim e.events)
    (hobeys : Obeys Allowed (Acked g'.given) g'.code g'.events)
    (hholds : ∀ cl, held g'.events = some cl → store.Holds cl)
    (hothers : ∀ t₁ g₁ cl, t₁ ≠ t → s.goroutines t₁ = some g₁ → held g₁.events = some cl →
      store.Holds cl ∧ ∀ mine, held g'.events = some mine → cl.key ≠ mine.key)
    (hadded : ∀ msg, Added msg g'.events → ∃ m, Present store (members settled) m ∧ StandsFor m msg) :
    AggregatorInv ⟨store, Function.update s.goroutines t (some g'), settled⟩ := by
  constructor
  · exact hledger
  · intro t₁ g₁ hg₁
    rcases update_eq_some.mp hg₁ with ⟨-, rfl⟩ | ⟨-, hold⟩
    · exact hobeys
    · exact h.obeys t₁ g₁ hold
  · intro t₁ g₁ cl hg₁ hcl
    rcases update_eq_some.mp hg₁ with ⟨-, rfl⟩ | ⟨ht, hold⟩
    · exact hholds cl hcl
    · exact (hothers t₁ g₁ cl ht hold hcl).1
  · intro t₁ t₂ g₁ g₂ cl₁ cl₂ hg₁ hg₂ hcl₁ hcl₂ hne
    rcases update_eq_some.mp hg₁ with ⟨rfl, rfl⟩ | ⟨ht₁, hold₁⟩ <;>
      rcases update_eq_some.mp hg₂ with ⟨rfl, rfl⟩ | ⟨ht₂, hold₂⟩
    · exact absurd rfl hne
    · exact ((hothers t₂ g₂ cl₂ ht₂ hold₂ hcl₂).2 cl₁ hcl₁).symm
    · exact (hothers t₁ g₁ cl₁ ht₁ hold₁ hcl₁).2 cl₂ hcl₂
    · exact h.apart t₁ t₂ g₁ g₂ cl₁ cl₂ hold₁ hold₂ hcl₁ hcl₂ hne
  · intro t₁ g₁ msg hg₁ hadd
    rcases update_eq_some.mp hg₁ with ⟨-, rfl⟩ | ⟨-, hold⟩
    · exact hadded msg hadd
    · obtain ⟨m, hm, hstands⟩ := h.added t₁ g₁ msg hold hadd
      exact ⟨m, hpresent m hm, hstands⟩
  · exact hdelivered

variable {code : AggregatorRoutine P (Control P)} {s' : AggregatorState P}
  {given : Option (Message P)}

theorem AggregatorInv.start (h : AggregatorInv s) (hcode : Obeys Allowed (Acked given) code [])
    (hs' : s.start t given code = some s') : AggregatorInv s' := by
  unfold AggregatorState.start at hs'
  split at hs'
  · obtain rfl := Option.some.inj hs'
    apply h.update h.ledger (fun _ hm => hm) h.delivered hcode
    · simp [held, claimAfter]
    · intro t₁ g₁ cl _ hg₁ hcl
      exact ⟨h.holds t₁ g₁ cl hg₁ hcl, by simp [held, claimAfter]⟩
    · simp [Added]
  · cases hs'

theorem AggregatorInv.resume (h : AggregatorInv s) (hg : s.goroutines t = some g) {c : Control P}
    (hret : g.code = .ret c) (hcode : c.code = some code) :
    AggregatorInv { s with goroutines := Function.update s.goroutines t (some { g with code }) } := by
  have hobeys := h.obeys t g hg
  rw [hret] at hobeys
  apply h.update h.ledger (fun _ hm => hm) h.delivered
  · exact obeys_code hobeys hcode
  · exact fun cl hcl => h.holds t g cl hg hcl
  · intro t₁ g₁ cl ht hg₁ hcl
    exact ⟨h.holds t₁ g₁ cl hg₁ hcl, fun mine hmine => h.apart t₁ t g₁ g cl mine hg₁ hg hcl hmine ht⟩
  · exact fun msg hadd => h.added t g msg hg hadd

theorem AggregatorInv.effect (h : AggregatorInv s) (hg : s.goroutines t = some g)
    {q : AggregatorCall P} {k : q.Answer → AggregatorRoutine P (Control P)}
    (hask : g.code = .ask q k) (choice : AggregatorChoice P) :
    Effect s.store g.events ⟨q, (serve choice s.store q).1⟩ (serve choice s.store q).2 := by
  have hobeys := h.obeys t g hg
  rw [hask] at hobeys
  exact serve_effect choice h.ledger.storeInv (fun cl hcl => h.holds t g cl hg hcl) hobeys.1

theorem AggregatorInv.answer (h : AggregatorInv s) (hg : s.goroutines t = some g)
    {q : AggregatorCall P} {k : q.Answer → AggregatorRoutine P (Control P)}
    (hask : g.code = .ask q k) (choice : AggregatorChoice P) :
    AggregatorInv
      { store := (serve choice s.store q).2
        goroutines := Function.update s.goroutines t
          (some ⟨g.given, k (serve choice s.store q).1, ⟨q, (serve choice s.store q).1⟩ :: g.events⟩)
        settled := (settlementOf s.store g.events q).toList ++ s.settled } := by
  have he := h.effect hg hask choice
  have hmembers : members ((settlementOf s.store g.events q).toList ++ s.settled) =
      members (settlementOf s.store g.events q).toList ++ members s.settled := List.flatMap_append
  have hobeys := h.obeys t g hg
  rw [hask] at hobeys
  apply h.update
  · rw [hmembers]
    exact h.ledger.conserves he.conserves
  · intro m hm
    rw [hmembers]
    exact hm.conserves he.conserves
  · intro e hmem
    rcases List.mem_append.mp hmem with hnew | hold
    · exact he.delivered e (Option.mem_toList.mp hnew)
    · exact h.delivered e hold
  · exact hobeys.2 _
  · exact he.holds
  · intro t₁ g₁ cl ht hg₁ hcl
    apply he.others cl (h.holds t₁ g₁ cl hg₁ hcl)
    exact fun mine hmine => h.apart t₁ t g₁ g cl mine hg₁ hg hcl hmine ht
  · rintro msg ⟨key, group, hmem⟩
    rcases List.mem_cons.mp hmem with hnew | hold
    · obtain ⟨m, k, hstored, hstands⟩ := he.added key msg group hnew.symm
      exact ⟨m, Or.inl ⟨k, hstored⟩, hstands⟩
    · obtain ⟨m, hm, hstands⟩ := h.added t g msg hg ⟨key, group, hold⟩
      rw [hmembers]
      exact ⟨m, hm.conserves he.conserves, hstands⟩

end Steps

def ReturnedNil (s : AggregatorState P) (msg : Message P) : Prop :=
  ∃ t events, s.goroutines t = some ⟨some msg, .ret (.handled (.returned none)), events⟩

structure Kept (s : AggregatorState P) : Prop where
  returnedNil : ∀ msg, ReturnedNil s msg →
    ∃ m, StandsFor m msg ∧
      ((∃ k, s.store.Stored k m) ∨ ∃ e ∈ s.settled, m ∈ e.claim.msgs)
  delivered : ∀ e ∈ s.settled, Delivered e.claim e.events
  settledOnce : (s.settled.flatMap fun e => e.claim.msgs.map Member.number).Nodup
  gone : ∀ e ∈ s.settled, ∀ m ∈ e.claim.msgs, ∀ k m', s.store.Stored k m' → m'.number ≠ m.number

theorem AggregatorInv.kept {s : AggregatorState P} (h : AggregatorInv s) : Kept s where
  returnedNil := by
    rintro msg ⟨t, events, hg⟩
    have hacked : Acked (some msg) (.handled (.returned none)) events := h.obeys t _ hg
    obtain ⟨m, hm, hstands⟩ := h.added t _ msg hg (hacked msg rfl)
    exact ⟨m, hstands, hm.imp_right List.mem_flatMap.mp⟩
  delivered := h.delivered
  settledOnce := by
    have hdistinct := h.ledger.distinct
    rwa [members, List.map_flatMap] at hdistinct
  gone e he m hm := h.ledger.gone m (List.mem_flatMap.mpr ⟨e, he, hm⟩)

/-- Every group has the key "k", the strategy decides `ok` and nothing fails. -/
def smooth (ok : Bool) (now : ℤ) : AggregatorChoice Unit where
  now := now
  order := fun _ => 0
  answer
    | .assert _ => none
    | .correlate _ => .returned (.ok "k")
    | .add _ _ => (none, none)
    | .release _ => .returned (ok, none)
    | .claimGroup _ => .ok none
    | .aggregate _ => .returned (.ok blankMessage)
    | .send _ | .sendExpired _ => .returned none
    | .settleGroup _ | .abandonGroup _ => none
    | .now => now
    | .expired _ => .ok []

/-- One message is released on its arrival, the next is held until a sweep expires it. -/
def releasedThenExpired : List (AggregatorLabel Unit) :=
  .handle 0 blankMessage :: List.replicate 10 (.proceed 0 (smooth true 0)) ++
    .handle 1 blankMessage :: List.replicate 4 (.proceed 1 (smooth false 0)) ++
    .reap 2 :: List.replicate 8 (.proceed 2 (smooth false 9))

end Msgin.Routing
