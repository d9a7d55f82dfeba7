import Msgin.AggregatorProtocol
import Msgin.GroupStoreClaims

/-!
# The invariant of the aggregator

A goroutine's claim holds its group until the goroutine gives it up, and the claims of two
goroutines are on different groups. Every message that the store accepted is stored or in a
settled claim, and in no two of them.
-/

namespace Msgin.Routing

open Interaction Prog Memory

variable {P : Type}

structure LedgerInv (st : GroupStore P) (settled : List (Member P)) : Prop where
  storeInv : StoreInv st
  distinct : (settled.map Member.number).Nodup
  counted : ∀ m ∈ settled, m.number < st.appended
  gone : ∀ m ∈ settled, ∀ k m', st.Stored k m' → m'.number ≠ m.number

theorem LedgerInv.conserves {st st' : GroupStore P} {settled out : List (Member P)}
    (h : LedgerInv st settled) (hc : Conserves st st' out) : LedgerInv st' (out ++ settled) where
  storeInv := hc.storeInv
  distinct := by
    rw [List.map_append, List.nodup_append]
    refine ⟨hc.distinct, h.distinct, fun n hn n' hn' heq => ?_⟩
    obtain ⟨m, hm, rfl⟩ := List.mem_map.mp hn
    obtain ⟨m', hm', rfl⟩ := List.mem_map.mp hn'
    obtain ⟨k, hstored⟩ := hc.taken m hm
    exact h.gone m' hm' k m hstored heq
  counted := by
    intro m hm
    rcases List.mem_append.mp hm with hout | hold
    · obtain ⟨k, hstored⟩ := hc.taken m hout
      exact (h.storeInv.lt_appended hstored).trans_le hc.appended
    · exact (h.counted m hold).trans_le hc.appended
  gone := by
    intro m hm k m' hm'
    rcases hc.fresh k m' hm' with ⟨hstored, hapart⟩ | hnew
    · rcases List.mem_append.mp hm with hout | hold
      · exact (hapart m hout).symm
      · exact h.gone m hold k m' hstored
    · have hlt : m.number < st.appended := by
        rcases List.mem_append.mp hm with hout | hold
        · obtain ⟨k, hstored⟩ := hc.taken m hout
          exact h.storeInv.lt_appended hstored
        · exact h.counted m hold
      omega

/-- The message itself, or one with its id. -/
def StandsFor (m : Member P) (msg : Message P) : Prop :=
  m.msg = msg ∨ msg.id ≠ "" ∧ m.msg.id = msg.id

def Present (st : GroupStore P) (settled : List (Member P)) (m : Member P) : Prop :=
  (∃ k, st.Stored k m) ∨ m ∈ settled

theorem Present.conserves {st st' : GroupStore P} {settled out : List (Member P)} {m : Member P}
    (h : Present st settled m) (hc : Conserves st st' out) : Present st' (out ++ settled) m := by
  rcases h with ⟨k, hstored⟩ | hsettled
  · rcases hc.kept k m hstored with hstored | hout
    · exact Or.inl ⟨k, hstored⟩
    · exact Or.inr (List.mem_append_left _ hout)
  · exact Or.inr (List.mem_append_right _ hsettled)

def members (settled : List (Settlement P)) : List (Member P) :=
  settled.flatMap fun e => e.claim.msgs

/-- What a call of a goroutine that had made the calls `es` does to the store. -/
structure Effect (st : GroupStore P) (es : List (AggregatorEvent P)) (e : AggregatorEvent P)
    (st' : GroupStore P) : Prop where
  conserves : Conserves st st' (members (settlementOf st es e.1).toList)
  holds : ∀ cl, held (e :: es) = some cl → st'.Holds cl
  others : ∀ cl, st.Holds cl → (∀ mine, held es = some mine → cl.key ≠ mine.key) →
    st'.Holds cl ∧ ∀ mine, held (e :: es) = some mine → cl.key ≠ mine.key
  added : ∀ key msg group, e = ⟨.add key msg, (group, none)⟩ →
    ∃ m k, st'.Stored k m ∧ StandsFor m msg
  delivered : ∀ s ∈ settlementOf st es e.1, Delivered s.claim s.events

section Effect

variable {st : GroupStore P} {es : List (AggregatorEvent P)}

theorem effect_other (hst : StoreInv st) (hheld : ∀ cl, held es = some cl → st.Holds cl)
    {e : AggregatorEvent P} (hhold : held (e :: es) = held es)
    (hadd : ∀ key msg group, e ≠ ⟨.add key msg, (group, none)⟩)
    (hsettled : settlementOf st es e.1 = none) : Effect st es e st where
  conserves := by
    rw [hsettled]
    exact conserves_refl hst
  holds := by
    rw [hhold]
    exact hheld
  others cl hcl hapart := by
    rw [hhold]
    exact ⟨hcl, hapart⟩
  added key msg group he := absurd he (hadd key msg group)
  delivered := by simp [hsettled]

theorem effect_add (hst : StoreInv st) (hheld : ∀ cl, held es = some cl → st.Holds cl)
    (key : String) (msg : Message P) (now : ℤ) :
    Effect st es ⟨.add key msg, (st.add key msg now).1⟩ (st.add key msg now).2 := by
  have ho := add_outcome key msg now st
  constructor
  · exact ho.conserves hst
  · intro cl hcl
    exact ho.holds (hheld cl hcl)
  · intro cl hcl hapart
    exact ⟨ho.holds hcl, hapart⟩
  · intro key' msg' group he
    simp only [Sigma.mk.injEq, AggregatorCall.add.injEq] at he
    obtain ⟨⟨rfl, rfl⟩, hanswer⟩ := he
    rw [eq_of_heq hanswer] at ho
    obtain ⟨m, hstored, hsame⟩ := ho.accepted hst
    exact ⟨m, key, hstored, hsame⟩
  · simp [settlementOf]

theorem effect_claimGroup (hst : StoreInv st) (hheld : ∀ cl, held es = some cl → st.Holds cl)
    (key : String) :
    Effect st es ⟨.claimGroup key, .ok (st.claimGroup key).1⟩ (st.claimGroup key).2 := by
  rcases hclaim : st.claimGroup key with ⟨_ | cl, st'⟩
  · obtain rfl := claimGroup_eq_none hclaim
    exact effect_other hst hheld rfl (by simp) rfl
  · constructor
    · exact (claimGroup_relabels hclaim).conserves hst
    · rintro _ ⟨rfl⟩
      exact claimGroup_holds hclaim
    · intro other hother _
      obtain ⟨hne, hholds⟩ := claimGroup_other hclaim hother
      refine ⟨hholds, ?_⟩
      rintro _ ⟨rfl⟩
      rwa [(claimGroup_key hclaim)]
    · simp
    · simp [settlementOf]

theorem effect_abandonGroup (hst : StoreInv st) {cl : ClaimGroup P} (hmine : held es = some cl)
    (hcl : st.Holds cl) : Effect st es ⟨.abandonGroup cl, none⟩ (st.abandonGroup cl) := by
  have hr := abandonGroup_relabels hcl
  constructor
  · exact hr.conserves hst
  · simp [held_cons, AggregatorEvent.hold]
  · intro other hother hapart
    exact ⟨hr.holds_other (hapart cl hmine) hother, by simp [held_cons, AggregatorEvent.hold]⟩
  · simp
  · simp [settlementOf]

theorem effect_settleGroup (hst : StoreInv st) {cl : ClaimGroup P} (hmine : held es = some cl)
    (hcl : st.Holds cl) (hdelivered : Delivered cl es) (now : ℤ) :
    Effect st es ⟨.settleGroup cl, none⟩ (st.settleGroup cl now) := by
  have hsettled : settlementOf st es (.settleGroup cl) = some ⟨cl, es⟩ := by
    obtain ⟨g, hfenced, -⟩ := fenced_of_holds hcl
    simp [settlementOf, hfenced]
  obtain ⟨g, -, -, hw, -⟩ := settleGroup_writes hcl now
  constructor
  · simpa [hsettled, members] using settleGroup_conserves hcl hst now
  · simp [held_cons, AggregatorEvent.hold]
  · intro other hother hapart
    exact ⟨hw.holds_other (hapart cl hmine) hother, by simp [held_cons, AggregatorEvent.hold]⟩
  · simp
  · simpa [hsettled] using hdelivered

theorem serve_effect (choice : AggregatorChoice P) (hst : StoreInv st)
    (hheld : ∀ cl, held es = some cl → st.Holds cl) {q : AggregatorCall P} (hq : Allowed es q) :
    Effect st es ⟨q, (serve choice st q).1⟩ (serve choice st q).2 := by
  cases q with
  | add key msg => exact effect_add hst hheld key msg choice.now
  | claimGroup key => exact effect_claimGroup hst hheld key
  | settleGroup cl => exact effect_settleGroup hst hq.1 (hheld cl hq.1) hq.2 choice.now
  | abandonGroup cl => exact effect_abandonGroup hst hq (hheld cl hq)
  | _ => exact effect_other hst hheld rfl (by simp) rfl

end Effect

end Msgin.Routing
