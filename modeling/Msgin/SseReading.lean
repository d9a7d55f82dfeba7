import Msgin.SseCut

/-!
# Reading a cut stream within the cap

Events that fit the cap of the client are read from any first part of a stream as if there were no
cap: an event that fits leaves room for a heartbeat, and where no event was written, nothing is read.
-/

namespace Msgin.Http

/-- No line of the frame and not the data of its event exceed the cap. -/
def SentFrame.fits (maxEventBytes : ℕ) (f : SentFrame) : Bool :=
  Buffers.empty.withinCap maxEventBytes (bodyLines f.frame)

variable {written : List Written} {line body : Bytes}

namespace Buffers

variable {b b' : Buffers} {maxEventBytes : ℕ}

theorem feed_dataBuf (h : b.dataBuf = b'.dataBuf) (line : Bytes) :
    (b.feed line).2.dataBuf = (b'.feed line).2.dataBuf := by
  unfold feed
  rw [h]
  split
  · split
    · rfl
    · rfl
  · split
    · exact h
    · rw [applyField_dataBuf, applyField_dataBuf, h]

theorem withinCap_congr (h : b.dataBuf = b'.dataBuf) (lines : List Bytes) :
    b.withinCap maxEventBytes lines = b'.withinCap maxEventBytes lines := by
  induction lines generalizing b b' with
  | nil => rfl
  | cons line lines ih =>
      rw [withinCap, withinCap, feed_dataBuf h line, ih (feed_dataBuf h line)]

theorem withinCap_append (l₁ l₂ : List Bytes) :
    b.withinCap maxEventBytes (l₁ ++ l₂) =
      (b.withinCap maxEventBytes l₁ && (b.feedAll l₁).2.withinCap maxEventBytes l₂) := by
  induction l₁ generalizing b with
  | nil => rw [List.nil_append, withinCap, Bool.true_and]; rfl
  | cons line l₁ ih => simp only [List.cons_append, withinCap, ih, feedAll, Bool.and_assoc]

theorem length_le_of_withinCap {lines : List Bytes} (h : b.withinCap maxEventBytes lines = true)
    (hl : line ∈ lines) : line.length ≤ maxEventBytes := by
  induction lines generalizing b with
  | nil => cases hl
  | cons first lines ih =>
      rw [withinCap, Bool.and_eq_true, Bool.and_eq_true, decide_eq_true_eq] at h
      rcases List.mem_cons.mp hl with rfl | hl
      · exact h.1.1
      · exact ih h.2 hl

theorem withinCap_of_prefix {part lines : List Bytes} (h : b.withinCap maxEventBytes lines = true)
    (hp : part <+: lines) : b.withinCap maxEventBytes part = true := by
  obtain ⟨rest, rfl⟩ := hp
  rw [withinCap_append, Bool.and_eq_true] at h
  exact h.1

theorem withinCap_written (hb : b.Idle)
    (hcap : ∀ w ∈ written, Buffers.empty.withinCap maxEventBytes w.lines = true) :
    b.withinCap maxEventBytes (written.flatMap Written.lines) = true := by
  induction written generalizing b with
  | nil => rfl
  | cons w written ih =>
      have hdata : b.dataBuf = Buffers.empty.dataBuf := hb.dataBuf
      rw [List.flatMap_cons, withinCap_append, withinCap_congr hdata, hcap w List.mem_cons_self,
        feedAll_lines hb w, Bool.true_and]
      exact ih (hb.of_idBuf _) fun v hv => hcap v (List.mem_cons_of_mem w hv)

end Buffers

theorem SentFrame.fits_lines {maxEventBytes : ℕ} (f : SentFrame) :
    f.fits maxEventBytes = Buffers.empty.withinCap maxEventBytes (Written.event f).lines := by
  have hlines := bodyLines_printLines (Written.event f).noBreak []
  rw [List.append_nil, ← Written.bytes_eq] at hlines
  exact congrArg (Buffers.empty.withinCap maxEventBytes) (hlines.trans (List.append_nil _))

theorem six_le_of_fits {maxEventBytes : ℕ} {f : SentFrame} (h : f.fits maxEventBytes = true) :
    6 ≤ maxEventBytes := by
  rw [f.fits_lines] at h
  cases hlines : dataLines f.event.data with
  | nil => exact absurd hlines (dataLines_ne_nil _)
  | cons line lines =>
      have hmem : dataLabel ++ line ∈ (Written.event f).lines := by
        simp [Written.lines, frameLines, hlines]
      have hlen := Buffers.length_le_of_withinCap h hmem
      have hsix : (dataLabel ++ line).length = 6 + line.length := by
        rw [List.length_append]
        rfl
      omega

theorem withinCap_heartbeat {maxEventBytes : ℕ} (h : 6 ≤ maxEventBytes) :
    Buffers.empty.withinCap maxEventBytes Written.heartbeat.lines = true := by
  have hdata : (Buffers.empty.feed [58, 32, 112, 105, 110, 103]).2 = Buffers.empty := rfl
  have hblank : (Buffers.empty.feed []).2 = Buffers.empty := rfl
  have hlength : Buffers.empty.dataBuf.length = 0 := rfl
  simp [Written.lines, Buffers.withinCap, hdata, hblank, hlength, h]

theorem withinCap_cut {maxEventBytes : ℕ}
    (hfits : ∀ f ∈ written.filterMap Written.sent, f.fits maxEventBytes = true)
    (hsix : 6 ≤ maxEventBytes) (h : body <+: written.flatMap Written.bytes) :
    Buffers.empty.withinCap maxEventBytes (bodyLines body) = true := by
  have hcap : ∀ w ∈ written, Buffers.empty.withinCap maxEventBytes w.lines = true := by
    intro w hw
    cases w with
    | event f =>
        rw [← f.fits_lines]
        exact hfits f (List.mem_filterMap.mpr ⟨.event f, hw, rfl⟩)
    | heartbeat => exact withinCap_heartbeat hsix
  have hidle : Buffers.empty.Idle := ⟨rfl, rfl⟩
  obtain ⟨part, hlines, -, hwhole, hpart⟩ := bodyLines_cut h
  rw [hlines]
  rcases hpart with rfl | ⟨w, hw, -, hpre, -⟩
  · rw [show bodyLines [] = [] from rfl, List.append_nil]
    exact Buffers.withinCap_written hidle fun v hv => hcap v (hwhole.subset hv)
  · have hall := Buffers.withinCap_written hidle fun v hv => hcap v (hw.subset hv)
    refine Buffers.withinCap_of_prefix hall ?_
    rw [List.flatMap_append, List.flatMap_singleton]
    exact (List.prefix_append_right_inj _).mpr hpre

/-- A line that is blank or a comment. -/
def IsQuiet (line : Bytes) : Prop := line = [] ∨ line.head? = some colon

theorem Buffers.line_quiet {maxEventBytes : ℕ} {b : Buffers} (hb : b.dataBuf = [])
    (h : IsQuiet line) :
    (b.line maxEventBytes line).1 = .goOn ∧ (b.line maxEventBytes line).2.dataBuf = [] ∧
      (b.line maxEventBytes line).2.idBuf = b.idBuf := by
  unfold Buffers.line
  by_cases hline : line = []
  · rw [if_pos hline, if_pos hb]
    exact ⟨rfl, hb, rfl⟩
  · rw [if_neg hline, if_pos (h.resolve_left hline)]
    exact ⟨rfl, hb, rfl⟩

theorem nextLoop_quiet (maxEventBytes turns : ℕ) {p : SSEParser} (hb : p.bufs.dataBuf = [])
    (hquiet : ∀ line ∈ bodyLines p.input, IsQuiet line) :
    ∃ err p', nextLoop maxEventBytes turns p = (.error err, p') ∧
      p'.bufs.idBuf = p.bufs.idBuf := by
  induction turns generalizing p with
  | zero => exact ⟨_, p, rfl, rfl⟩
  | succ turns ih =>
      have hfailed : ∀ err rest, readLine maxEventBytes p.readErr [] p.input = (.error err, rest) →
          ∃ err p', nextLoop maxEventBytes (turns + 1) p = (.error err, p') ∧
            p'.bufs.idBuf = p.bufs.idBuf := by
        intro err rest hread
        have hnext : nextLoop maxEventBytes (turns + 1) p = (.error (p.bufs.readFailed err).1,
            ⟨rest, p.readErr, (p.bufs.readFailed err).2⟩) := by
          rw [nextLoop, hread]
        exact ⟨_, _, hnext, (p.bufs.readFailed_id err).1⟩
      cases hcut : cutLine p.input with
      | none =>
          obtain ⟨err, rest, hread⟩ := readLine_of_cutLine_none maxEventBytes p.readErr [] hcut
          exact hfailed err rest hread
      | some cut =>
          obtain ⟨line, rest⟩ := cut
          have hlines : bodyLines p.input = line :: bodyLines rest := by
            rw [bodyLines_eq, hcut]
            rfl
          rw [hlines] at hquiet
          rcases readLine_cases p.readErr hcut with hread | ⟨-, err, left, hread⟩
          · obtain ⟨hgo, hdata, hid⟩ := p.bufs.line_quiet hb (hquiet line List.mem_cons_self)
            obtain ⟨err, p', hp', hid'⟩ :=
              ih (p := ⟨rest, p.readErr, (p.bufs.line maxEventBytes line).2⟩) hdata
                fun l hl => hquiet l (List.mem_cons_of_mem line hl)
            refine ⟨err, p', ?_, hid'.trans hid⟩
            rw [nextLoop, hread]
            simp only [List.nil_append, hgo]
            exact hp'
          · exact hfailed err left hread

theorem isQuiet_of_mem_lines (h : line ∈ Written.heartbeat.lines) : IsQuiet line := by
  rcases List.mem_cons.mp h with rfl | h
  · exact .inr rfl
  · exact .inl (List.mem_singleton.mp h)

theorem isQuiet_cut (hnone : written.filterMap Written.sent = [])
    (h : body <+: written.flatMap Written.bytes) (hl : line ∈ bodyLines body) : IsQuiet line := by
  have hquiet : ∀ w ∈ written, line ∈ w.lines → IsQuiet line := by
    intro w hw hline
    cases w with
    | event f => exact absurd (List.filterMap_eq_nil_iff.mp hnone _ hw) (by simp [Written.sent])
    | heartbeat => exact isQuiet_of_mem_lines hline
  obtain ⟨part, hlines, -, hwhole, hpart⟩ := bodyLines_cut h
  rw [hlines] at hl
  rcases List.mem_append.mp hl with hl | hl
  · obtain ⟨w, hw, hline⟩ := List.mem_flatMap.mp hl
    exact hquiet w (hwhole.subset hw) hline
  · rcases hpart with rfl | ⟨w, hw, -, hpre, -⟩
    · cases hl
    · exact hquiet w (hw.subset (by simp)) (hpre.subset hl)

theorem Written.bytes_cons (w : Written) : ∃ b rest, w.bytes = b :: rest ∧ b ≠ 0xEF := by
  cases w with
  | event f =>
      show ∃ b rest, frameBytes f.event = b :: rest ∧ b ≠ 0xEF
      rw [frameBytes_eq, frameLines]
      by_cases hid : f.event.id ≠ []
      · rw [if_pos hid]
        exact ⟨105, _, rfl, by decide⟩
      · rw [if_neg hid, List.nil_append]
        by_cases hname : f.event.name ≠ []
        · rw [if_pos hname]
          exact ⟨101, _, rfl, by decide⟩
        · rw [if_neg hname, List.nil_append]
          cases hlines : dataLines f.event.data with
          | nil => exact absurd hlines (dataLines_ne_nil _)
          | cons line lines => exact ⟨100, _, rfl, by decide⟩
  | heartbeat => exact ⟨58, _, rfl, by decide⟩

theorem newSSEParser_cut (h : body <+: written.flatMap Written.bytes) (readErr : ReadErr) :
    newSSEParserWithCap body readErr = ⟨body, readErr, .empty⟩ := by
  have hbom : body.take 3 ≠ sseBOM := by
    intro hbom
    cases body with
    | nil => cases hbom
    | cons b body =>
        cases written with
        | nil => cases List.prefix_nil.mp h
        | cons w written =>
            obtain ⟨first, rest, hbytes, hfirst⟩ := w.bytes_cons
            rw [List.flatMap_cons, hbytes] at h
            obtain ⟨rfl, -⟩ := List.cons_prefix_cons.mp h
            exact hfirst (List.cons.inj hbom).1
  rw [newSSEParserWithCap, if_neg hbom]

/-- What a connection leaves the client with that is cut after `n` bytes. -/
structure CutResult (written : List Written) (n : ℕ) (r : List SSEEvent × ConnResult) : Prop where
  terminal : r.2.terminal = none
  events : r.1 = (((wholeWrites written n).1.filterMap Written.sent).map fun f => f.event.received)
  position : CutPosition written n r.2.lastEventID

theorem connect_cut {ccfg : ClientConfig} (hid : ∀ f ∈ written.filterMap Written.sent, f.id ≠ [])
    (hfits : ∀ f ∈ written.filterMap Written.sent, f.fits ccfg.maxEventBytes = true)
    (h : body <+: written.flatMap Written.bytes) (lastEventID : Bytes) (readErr : ReadErr) :
    CutResult written body.length
      (connect ccfg lastEventID
        (replied (.response 200 (some "text/event-stream") body readErr))) := by
  have hconnect : connect ccfg lastEventID
      (replied (.response 200 (some "text/event-stream") body readErr)) =
      readEvents ccfg (replied (.response 200 (some "text/event-stream") body readErr)) body
        readErr := rfl
  rw [hconnect]
  unfold readEvents readAll
  rw [newSSEParser_cut h readErr]
  by_cases hnone : written.filterMap Written.sent = []
  · obtain ⟨err, p', hnext, hbuf⟩ := nextLoop_quiet ccfg.maxEventBytes (body.length + 1)
      (p := ⟨body, readErr, .empty⟩) rfl fun line hl => isQuiet_cut hnone h hl
    have hloop : readLoop ccfg.maxEventBytes (body.length + 1) none ⟨body, readErr, .empty⟩ =
        (([], false), p') := by
      rw [readLoop, next, hnext]
    have hwhole : (wholeWrites written body.length).1.filterMap Written.sent = [] := by
      obtain ⟨-, -, -, hpre, -⟩ := bodyLines_cut h
      exact List.prefix_nil.mp (hnone ▸ hpre.filterMap Written.sent)
    simp only [replied, hloop]
    refine ⟨rfl, by rw [hwhole]; rfl, .inl ?_⟩
    rw [hwhole]
    exact hbuf
  · obtain ⟨f, hf⟩ := List.exists_mem_of_ne_nil _ hnone
    have hcap := withinCap_cut hfits (six_le_of_fits (hfits f hf)) h
    obtain ⟨p', hloop, hbuf, -⟩ :=
      readLoop_spec (p := ⟨body, readErr, .empty⟩) (Nat.lt_succ_self body.length) hcap
    obtain ⟨hevents, hposition⟩ := feedAll_cut hid h
    simp only [replied, hloop]
    have hlast : p'.bufs.idBuf = (Buffers.empty.feedAll (bodyLines body)).2.idBuf := hbuf
    rw [← hlast] at hposition
    exact ⟨rfl, hevents, hposition⟩

end Msgin.Http
