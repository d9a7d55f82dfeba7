import Msgin.HttpCodec

/-!
# Reserved headers and remote input

Two runs of a decoder on different input agree on every header in the reserved namespace: what the
remote side sends is written to other names only, and what is written to reserved names does not
come from it.
-/

namespace Msgin.Http

/-- The headers agree on the reserved names. -/
def SameReserved (g h : Headers) : Prop := ∀ k, isReserved k = true → g.m k = h.m k

variable {g h : Headers}

theorem SameReserved.refl (h : Headers) : SameReserved h h := fun _ _ => rfl

theorem SameReserved.withKey (hgh : SameReserved g h) (key : String) (v : HeaderValue) :
    SameReserved (g.withKey key v) (h.withKey key v) := by
  intro k hk
  by_cases hkey : k = key
  · simp [Headers.withKey, hkey]
  · simpa [Headers.withKey, hkey] using hgh k hk

theorem SameReserved.write (hgh : SameReserved g h) {key : String} (hkey : isReserved key = false)
    (v : HeaderValue) : SameReserved g (h.withKey key v) := by
  intro k hk
  have hne : k ≠ key := by
    rintro rfl
    rw [hkey] at hk
    cases hk
  simpa [Headers.withKey, hne] using hgh k hk

theorem SameReserved.symm (hgh : SameReserved g h) : SameReserved h g :=
  fun k hk => (hgh k hk).symm

theorem SameReserved.trans {f : Headers} (hfg : SameReserved f g) (hgh : SameReserved g h) :
    SameReserved f h :=
  fun k hk => (hfg k hk).trans (hgh k hk)

theorem stripReserved_none (h : Headers) : SameReserved ⟨fun _ => none⟩ (stripReserved h) := by
  intro k hk
  simp [stripReserved, hk]

theorem SameReserved.requestMetadata (hgh : SameReserved g h) (r : Request) :
    SameReserved g (requestMetadata r h) := by
  unfold Http.requestMetadata
  have hmethod : isReserved headerHTTPMethod = false := by decide
  have hpath : isReserved headerHTTPPath = false := by decide
  have hquery : isReserved headerHTTPQuery = false := by decide
  have hcontentType : isReserved headerHTTPContentType = false := by decide
  split
  · exact (((hgh.write hcontentType _).write hmethod _).write hpath _).write hquery _
  · exact ((hgh.write hmethod _).write hpath _).write hquery _

theorem resolveOr_cases {resolve : Option (Request → Except Panic String)} {r : Request}
    {α : Type} {default a : α} {use : String → α}
    (h : resolveOr resolve r default use = .ok a) : a = default ∨ ∃ v, a = use v := by
  cases resolve with
  | none =>
      cases h
      exact .inl rfl
  | some f =>
      cases hf : f r with
      | error p =>
          rw [resolveOr, hf] at h
          cases h
      | ok v =>
          rw [resolveOr, hf] at h
          by_cases hv : v ≠ ""
          · exact .inr ⟨v, (Except.ok.inj h).symm.trans (if_pos hv)⟩
          · exact .inl ((Except.ok.inj h).symm.trans (if_neg hv))

theorem bind_eq_ok {α β : Type} {x : Except Panic α} {f : α → Except Panic β} {b : β}
    (h : x >>= f = .ok b) : ∃ a, x = .ok a ∧ f a = .ok b := by
  cases x with
  | error p => cases h
  | ok a => exact ⟨a, rfl, h⟩

def mintedHeaders (id : String) (now : ℤ) : Headers :=
  (((Headers.mk fun _ => none).withKey headerMessageID (.string id)).withKey headerTimestamp
    (.time now)).withKey headerCorrelationID (.string id)

theorem id_new (payload : Payload) (h : Headers) (id : String) (now : ℤ) :
    (Message.new payload h id now).id = id := by
  have hne : headerMessageID ≠ headerTimestamp := by decide
  simp [Message.id, Message.new, Headers.string, Headers.withKey, hne]

theorem decodeRequest_reserved {r : Request} {cfg : Option Config} {id : String} {now : ℤ}
    {m : Message Payload} (htrusted : trustedCorrelationID cfg = none)
    (hdecode : decodeRequest r cfg id now = .ok (.ok m)) :
    SameReserved (mintedHeaders id now) m.headers := by
  unfold decodeRequest at hdecode
  split at hdecode
  · cases hdecode
  · next raw _ =>
      have hstart := (stripReserved_none
        (copyAllowed r.header (allowedRequestHeaders cfg))).requestMetadata r
      generalize requestMetadata r
        (stripReserved (copyAllowed r.header (allowedRequestHeaders cfg))) = base at hstart hdecode
      obtain ⟨headers, hadvisory, hdecode⟩ := bind_eq_ok hdecode
      obtain ⟨cid, hcid, hdecode⟩ := bind_eq_ok hdecode
      cases hdecode
      have hheaders : SameReserved ⟨fun _ => none⟩ headers := by
        rcases resolveOr_cases hadvisory with rfl | ⟨v, rfl⟩
        · exact hstart
        · exact hstart.write (by decide) _
      rw [htrusted] at hcid
      have hid : cid = id := (Except.ok.inj hcid).symm.trans (id_new (.bytes raw) headers id now)
      subst hid
      exact ((hheaders.withKey headerMessageID (.string cid)).withKey headerTimestamp
        (.time now)).withKey headerCorrelationID (.string cid)

theorem foldl_copyReplyHeader_reserved (resp : Response) (names : List String)
    (reply : Message Payload) :
    SameReserved reply.headers (names.foldl (copyReplyHeader resp) reply).headers := by
  induction names generalizing reply with
  | nil => exact .refl _
  | cons name names ih =>
      refine SameReserved.trans ?_ (ih (copyReplyHeader resp reply name))
      unfold copyReplyHeader
      split
      · exact .refl _
      · next hname =>
          split
          · exact (SameReserved.refl _).write (Bool.not_eq_true _ ▸ hname) _
          · exact .refl _

theorem buildReply_reserved (cfg : Config) (req : Message Payload) (resp : Response)
    (body : List UInt8) (id : String) (now : ℤ) :
    SameReserved (Message.new (Payload.bytes body) (replySeed req.headers) id now).headers
      (buildReply cfg req resp body id now).headers := by
  unfold buildReply
  refine SameReserved.trans ?_ (foldl_copyReplyHeader_reserved resp cfg.replyHeaders _)
  split
  · exact (SameReserved.refl _).write (by decide) _
  · exact .refl _

theorem reserved_agree (id : String) (now : ℤ) :
    (∀ cfg r₁ r₂ m₁ m₂, trustedCorrelationID cfg = none →
      decodeRequest r₁ cfg id now = .ok (.ok m₁) → decodeRequest r₂ cfg id now = .ok (.ok m₂) →
      SameReserved m₁.headers m₂.headers) ∧
    ∀ cfg req resp₁ resp₂ body₁ body₂,
      SameReserved (buildReply cfg req resp₁ body₁ id now).headers
        (buildReply cfg req resp₂ body₂ id now).headers := by
  constructor
  · intro cfg r₁ r₂ m₁ m₂ htrusted h₁ h₂
    exact (decodeRequest_reserved htrusted h₁).symm.trans (decodeRequest_reserved htrusted h₂)
  · intro cfg req resp₁ resp₂ body₁ body₂
    exact (buildReply_reserved cfg req resp₁ body₁ id now).symm.trans
      (buildReply_reserved cfg req resp₂ body₂ id now)

def laxConfig : Config where
  maxBodyBytes := 0
  requestHeaders := ["MSGIN.delivery-count", "msgin.message-id", "X-Tenant"]
  replyHeaders := ["Msgin.sequence-size"]
  successStatus := 0
  errorStatus := none
  correlationID := none
  trustedCorrelation := none

def forgedRequest : Request := ⟨none, fun _ => "forged", "POST", "/orders", ""⟩

def plainRequest : Request := ⟨some ⟨[1, 2], none⟩, fun _ => "", "GET", "/", "q=1"⟩

theorem reserved_agree_forged :
    ∃ m₁ m₂, decodeRequest forgedRequest (some laxConfig) "id" 0 = .ok (.ok m₁) ∧
      decodeRequest plainRequest (some laxConfig) "id" 0 = .ok (.ok m₂) ∧
      SameReserved m₁.headers m₂.headers := by
  obtain ⟨m₁, h₁⟩ : ∃ m, decodeRequest forgedRequest (some laxConfig) "id" 0 = .ok (.ok m) :=
    ⟨_, rfl⟩
  obtain ⟨m₂, h₂⟩ : ∃ m, decodeRequest plainRequest (some laxConfig) "id" 0 = .ok (.ok m) :=
    ⟨_, rfl⟩
  exact ⟨m₁, m₂, h₁, h₂, (reserved_agree "id" 0).1 _ _ _ m₁ m₂ rfl h₁ h₂⟩

end Msgin.Http
