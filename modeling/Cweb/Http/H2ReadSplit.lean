import Cweb.Http.H2Loop
import Cweb.Http.H2Trace

/-!
# The same stream in other reads

However the stream of a client is cut into reads, the frames taken from it and
the error the connection ends with are the same, as long as the preface, the
last GOAWAY and a failing answer are met in an orderly way. A preface that comes in
pieces is not.
-/

namespace Cweb.H2

open Loop

variable {env : H2Env}

/-! ## The loop over the whole stream -/

/-- The frames of a stream that is there in full, up to an error or the end the
client's GOAWAY asked for. -/
def streamTurn (env : H2Env) (i : H2Conn × Bytes) : Turn (H2Conn × Bytes) :=
  if i.1.error ≠ none ∨ h2ClientGoawayDone i.1 then .leave i
  else
    match h2FramePeek i.2 with
    | .incomplete => .leave i
    | .tooLarge => .leave (h2ConnError i.1 .frameSize, i.2)
    | .frame f rest =>
      let c := h2ProcessFrame env i.1 f
      if c.error ≠ none then .leave (c, rest) else .again (settle env c, rest)

/-- What keeps the reads from mattering. A frame header is not looked for while
the preface is at the front of the stream, the preface is not met again once
something has been taken, no frame is complete behind a GOAWAY that left no
streams or behind an answer that failed, and what was handed over fits the buffer. -/
structure Orderly (m : H2Loop) : Prop where
  whole : m.top = false → 9 ≤ m.rb.length → ¬ h2Magic <+: m.ahead
  once : m.top = true → h2Magic <+: m.rb → m.taken = 0
  goaway : m.top = false → h2ClientGoawayDone m.conn = true → h2FramePeek m.rb = .incomplete
  failed : m.top = false → m.conn.error ≠ none → h2FramePeek m.rb = .incomplete
  room : m.rb.length ≤ h2BufferCap

/-- The loop and the one over the whole stream, side by side. -/
structure Tracks (env : H2Env) (m : H2Loop) (i : H2Conn × Bytes) : Prop where
  conn : i.1 = if m.top then settle env m.conn else m.conn
  stream : i.2 = if m.taken = 0 then skipMagic m.ahead else m.ahead
  settled : m.top = false → ∃ c, m.conn = settle env c
  reads : ∀ bytes ∈ m.reads, bytes ≠ []

theorem skipMagic_of_prefix {s : Bytes} (h : h2Magic <+: s) : skipMagic s = s.drop h2Magic.length :=
  if_pos (List.isPrefixOf_iff_prefix.mpr h)

theorem skipMagic_of_not {s : Bytes} (h : ¬ h2Magic <+: s) : skipMagic s = s :=
  if_neg fun hPrefix => h (List.isPrefixOf_iff_prefix.mp hPrefix)

theorem Tracks.stream_of_whole {m : H2Loop} {i : H2Conn × Bytes} (h : Tracks env m i)
    (hWhole : ¬ h2Magic <+: m.ahead) :
    i.2 = m.ahead := by
  rw [h.stream]
  split
  · exact skipMagic_of_not hWhole
  · rfl

theorem headTurn_again {m m' : H2Loop} {i : H2Conn × Bytes} (hTracks : Tracks env m i) (hTop : m.top = true)
    (hOrderly : Orderly m) (h : headTurn env m = .again m') : Tracks env m' i := by
  have hConn : i.1 = settle env m.conn := by
    rw [hTracks.conn, if_pos hTop]
  rw [headTurn] at h
  split at h
  · cases h
  · rename_i hGo
    obtain rfl := Turn.again.inj h
    refine ⟨hConn, ?_, fun _ => ⟨m.conn, rfl⟩, hTracks.reads⟩
    rw [hTracks.stream]
    by_cases hMagic : h2Magic <+: m.rb
    · have hLe := hMagic.length_le
      have hTaken := hOrderly.once hTop hMagic
      have hAhead : h2Magic <+: m.ahead := hMagic.trans (List.prefix_append _ _)
      have hPos : (0 : Nat) < h2Magic.length := by decide
      rw [if_pos hTaken, skipMagic_of_prefix hAhead, skipMagic_of_prefix hMagic]
      dsimp only
      rw [if_neg (by rw [List.length_drop]; omega), H2Loop.ahead, List.drop_append_of_le_length hLe]
      rfl
    · rw [skipMagic_of_not hMagic]
      dsimp only
      rw [Nat.sub_self, Nat.add_zero]
      rfl

theorem headTurn_leave {m m' : H2Loop} {i : H2Conn × Bytes} (hTracks : Tracks env m i) (hTop : m.top = true)
    (h : headTurn env m = .leave m') : ∃ i', streamTurn env i = .leave i' ∧ m'.conn = i'.1 := by
  have hConn : i.1 = settle env m.conn := by
    rw [hTracks.conn, if_pos hTop]
  rw [headTurn] at h
  split at h
  · rename_i hStop
    obtain rfl := Turn.leave.inj h
    refine ⟨i, ?_, hConn.symm⟩
    rw [streamTurn, if_pos (by rw [hConn]; exact hStop)]
  · cases h

theorem Orderly.goes {m : H2Loop} (h : Orderly m) (hTop : m.top = false)
    (hPeek : h2FramePeek m.rb ≠ .incomplete) :
    ¬ (m.conn.error ≠ none ∨ h2ClientGoawayDone m.conn = true) := by
  rintro (hErr | hDone)
  · exact hPeek (h.failed hTop hErr)
  · exact hPeek (h.goaway hTop hDone)

/-- One turn of the inner loop. Either the other loop waits, because only a
read was made, or it takes the same turn. -/
theorem frameTurn_again {m m' : H2Loop} {i : H2Conn × Bytes} (hTracks : Tracks env m i) (hTop : m.top = false)
    (hOrderly : Orderly m) (h : frameTurn env m = .again m') :
    Tracks env m' i ∨ ∃ i', streamTurn env i = .again i' ∧ Tracks env m' i' := by
  have hConn : i.1 = m.conn := by
    rw [hTracks.conn, if_neg (by rw [hTop]; exact Bool.false_ne_true)]
  obtain ⟨c, hSettled⟩ := hTracks.settled hTop
  rw [frameTurn] at h
  split at h
  · cases h
  · rename_i f rest hPeek
    dsimp only at h
    split at h
    · cases h
    · rename_i hNext
      obtain rfl := Turn.again.inj h
      obtain ⟨hAhead, hShorter⟩ := h2FramePeek_frame hPeek m.reads.flatten
      have hStream := hTracks.stream_of_whole (hOrderly.whole hTop (by omega))
      have hGo := hOrderly.goes hTop (by rw [hPeek]; rintro ⟨⟩)
      right
      refine ⟨(settle env (h2ProcessFrame env m.conn f), rest ++ m.reads.flatten), ?_, ?_, ?_,
        fun _ => ⟨_, rfl⟩,
        hTracks.reads⟩
      · rw [streamTurn, if_neg (hConn ▸ hGo), hStream, H2Loop.ahead, hAhead]
        dsimp only
        rw [hConn, if_neg hNext]
      · rw [if_neg (by dsimp only; rw [hTop]; exact Bool.false_ne_true)]
      · dsimp only
        rw [if_neg (by omega)]
        rfl
  · rename_i hPeek
    split at h
    · cases h
    · rename_i hGo
      have hOk := not_not.mp (not_or.mp hGo).1
      rw [h2Fill] at h
      split at h
      · cases h
      · obtain rfl := Turn.again.inj h
        left
        refine ⟨?_, ?_, ?_, netRecv_ne_nil hTracks.reads⟩
        · dsimp only
          rw [if_pos rfl, hConn, hSettled, settle_settle (by rw [← hSettled]; exact hOk)]
        · rw [hTracks.stream]
          have hSame : m.ahead = (m.rb ++ (netRecv (h2BufferCap - m.rb.length) m.reads).1) ++
              (netRecv (h2BufferCap - m.rb.length) m.reads).2.flatten := by
            rw [List.append_assoc, netRecv_flatten]
            rfl
          rw [hSame]
          rfl
        · intro hFalse
          cases hFalse

theorem frameTurn_leave {m m' : H2Loop} {i : H2Conn × Bytes} (hTracks : Tracks env m i) (hTop : m.top = false)
    (hOrderly : Orderly m) (h : frameTurn env m = .leave m') : ∃ i', streamTurn env i = .leave i' ∧
      m'.conn = i'.1 := by
  have hConn : i.1 = m.conn := by
    rw [hTracks.conn, if_neg (by rw [hTop]; exact Bool.false_ne_true)]
  have hGo : h2FramePeek m.rb ≠ .incomplete → ¬ (i.1.error ≠ none ∨ h2ClientGoawayDone i.1 = true) := by
    rw [hConn]
    exact hOrderly.goes hTop
  have hLong : h2FramePeek m.rb ≠ .incomplete → i.2 = m.ahead := by
    intro hPeek
    refine hTracks.stream_of_whole (hOrderly.whole hTop ?_)
    by_contra hShort
    exact hPeek (h2FramePeek_short (by omega))
  rw [frameTurn] at h
  split at h
  · rename_i hPeek
    have hSome : h2FramePeek m.rb ≠ .incomplete := by rw [hPeek]; rintro ⟨⟩
    obtain rfl := Turn.leave.inj h
    refine ⟨(h2ConnError i.1 .frameSize, i.2), ?_, by rw [hConn]⟩
    rw [streamTurn, if_neg (hGo hSome), hLong hSome, H2Loop.ahead, h2FramePeek_tooLarge hPeek]
  · rename_i f rest hPeek
    have hSome : h2FramePeek m.rb ≠ .incomplete := by rw [hPeek]; rintro ⟨⟩
    dsimp only at h
    split at h
    · rename_i hErr
      obtain rfl := Turn.leave.inj h
      refine ⟨(h2ProcessFrame env m.conn f, rest ++ m.reads.flatten), ?_, rfl⟩
      rw [streamTurn, if_neg (hGo hSome), hLong hSome, H2Loop.ahead, (h2FramePeek_frame hPeek _).1]
      dsimp only
      rw [hConn, if_pos hErr]
    · cases h
  · rename_i hPeek
    split at h
    · rename_i hDone
      obtain rfl := Turn.leave.inj h
      exact ⟨i, by rw [streamTurn, if_pos (hConn.symm ▸ hDone)], hConn.symm⟩
    · rename_i hMore
      rw [h2Fill] at h
      split at h
      · rename_i hNil
        obtain rfl := Turn.leave.inj h
        have hRoom : 0 < h2BufferCap - m.rb.length := by
          have hShort := h2FramePeek_incomplete hPeek
          have hCap : 9 + h2MaxFrameSize < h2BufferCap := by decide
          omega
        -- the stream is over, and its rest is what is buffered
        have hAhead : m.ahead = m.rb := by
          rw [H2Loop.ahead, netRecv_eq_nil hTracks.reads hRoom hNil, List.flatten_nil, List.append_nil]
        have hStream : i.2 = m.rb := by
          rw [← hAhead]
          refine hTracks.stream_of_whole ?_
          by_cases hLen : 9 ≤ m.rb.length
          · exact hOrderly.whole hTop hLen
          · intro hMagic
            rw [hAhead] at hMagic
            have hLe := hMagic.length_le
            have hMagicLen : h2Magic.length = 24 := by decide
            omega
        have hStay : ¬ (i.1.error ≠ none ∨ h2ClientGoawayDone i.1 = true) := by
          rw [hConn]
          exact hMore
        refine ⟨i, ?_, hConn.symm⟩
        rw [streamTurn, if_neg hStay, hStream, hPeek]
      · cases h

/-! ## Runs -/

theorem streamTurn_shorter {i i' : H2Conn × Bytes} (h : streamTurn env i = .again i') :
    i'.2.length < i.2.length := by
  rw [streamTurn] at h
  split at h
  · cases h
  · split at h
    · cases h
    · cases h
    · rename_i f rest hPeek
      dsimp only at h
      split at h
      · cases h
      · obtain rfl := Turn.again.inj h
        have hShorter := (h2FramePeek_frame hPeek []).2
        dsimp only
        omega

theorem h2LoopEnd_eq {c : H2Conn} {rb : Bytes} {reads : List Bytes} (hReads : ∀ bytes ∈ reads, bytes ≠ [])
    (hOrderly : ∀ m, Visits (loopTurn env) (loopStart c rb reads) m → Orderly m) :
    h2LoopEnd env (loopStart c rb reads) =
      (run (streamTurn env) ((skipMagic (rb ++ reads.flatten)).length + 1)
        (settle env c, skipMagic (rb ++ reads.flatten))).1 := by
  have hFollows : Follows (loopTurn env) (streamTurn env) (Tracks env) (fun m i => m.conn = i.1)
      (loopStart c rb reads) := by
    constructor
    · intro m m' i hVisits hTracks hTurn
      have hOrder := hOrderly m hVisits
      rw [loopTurn] at hTurn
      split at hTurn
      · rename_i hTop
        exact .inl (headTurn_again hTracks hTop hOrder hTurn)
      · rename_i hTop
        exact frameTurn_again hTracks (Bool.not_eq_true _ ▸ hTop) hOrder hTurn
    · intro m m' i hVisits hTracks hTurn
      have hOrder := hOrderly m hVisits
      rw [loopTurn] at hTurn
      split at hTurn
      · rename_i hTop
        exact headTurn_leave hTracks hTop hTurn
      · rename_i hTop
        exact frameTurn_leave hTracks (Bool.not_eq_true _ ▸ hTop) hOrder hTurn
  have hStart : Tracks env (loopStart c rb reads) (settle env c, skipMagic (rb ++ reads.flatten)) :=
    ⟨rfl, rfl, by rintro ⟨⟩, hReads⟩
  exact Follows.run (fun i => i.2.length) (fun _ _ h => streamTurn_shorter h) H2Loop.work _ _ hFollows
    (fun _ _ _ h => loopTurn_work h) (Nat.lt_succ_self _) _ _ hStart (Nat.lt_succ_self _)

theorem reads_independent {c : H2Conn} {rb₁ rb₂ : Bytes} {reads₁ reads₂ : List Bytes}
    (hStream : rb₁ ++ reads₁.flatten = rb₂ ++ reads₂.flatten)
    (hReads₁ : ∀ bytes ∈ reads₁, bytes ≠ []) (hReads₂ : ∀ bytes ∈ reads₂, bytes ≠ [])
    (hOrderly₁ : ∀ m, Visits (loopTurn env) (loopStart c rb₁ reads₁) m → Orderly m)
    (hOrderly₂ : ∀ m, Visits (loopTurn env) (loopStart c rb₂ reads₂) m → Orderly m) :
    received (h2LoopEnd env (loopStart c rb₁ reads₁)).trace = received
      (h2LoopEnd env (loopStart c rb₂ reads₂)).trace ∧
      (h2LoopEnd env (loopStart c rb₁ reads₁)).error = (h2LoopEnd env (loopStart c rb₂ reads₂)).error := by
  have hEq : h2LoopEnd env (loopStart c rb₁ reads₁) = h2LoopEnd env (loopStart c rb₂ reads₂) := by
    rw [h2LoopEnd_eq hReads₁ hOrderly₁, h2LoopEnd_eq hReads₂ hOrderly₂, hStream]
  rw [hEq]
  exact ⟨rfl, rfl⟩

instance : DecidablePred Orderly := fun m =>
  decidable_of_iff ((m.top = false → 9 ≤ m.rb.length → ¬ h2Magic <+: m.ahead) ∧
      (m.top = true → h2Magic <+: m.rb → m.taken = 0) ∧
      (m.top = false → h2ClientGoawayDone m.conn = true → h2FramePeek m.rb = .incomplete) ∧
      (m.top = false → m.conn.error ≠ none → h2FramePeek m.rb = .incomplete) ∧ m.rb.length ≤ h2BufferCap)
    ⟨fun h => ⟨h.1, h.2.1, h.2.2.1, h.2.2.2.1, h.2.2.2.2⟩,
      fun h => ⟨h.whole, h.once, h.goaway, h.failed, h.room⟩⟩

def settingsFrame : Bytes := [0, 0, 0, 4, 0, 0, 0, 0, 0]

theorem reads_independent_preface :
    (h2LoopEnd plainEnv (loopStart (h2SendSettings plainEnv h2Init) [] [h2Magic ++ settingsFrame])).error =
      (h2LoopEnd plainEnv
        (loopStart (h2SendSettings plainEnv h2Init) [] [h2Magic, settingsFrame])).error := by
  have hOrderly : ∀ reads, checked (fun m => decide (Orderly m)) (loopTurn plainEnv) 9
      (loopStart (h2SendSettings plainEnv h2Init) [] reads) = true →
        ∀ m, Visits (loopTurn plainEnv) (loopStart (h2SendSettings plainEnv h2Init) [] reads) m → Orderly m :=
    fun _ h m hVisits => of_decide_eq_true (hVisits.of_checked (P := fun m => decide (Orderly m)) 9 h)
  exact (reads_independent (by decide) (by decide) (by decide) (hOrderly _ (by decide +kernel))
    (hOrderly _ (by decide +kernel))).2

/-- The client's preface and SETTINGS over TLS, in one read and with the preface
in two. -/
theorem preface_in_pieces :
    ([h2Magic ++ settingsFrame] : List Bytes).flatten =
        [h2Magic.take 10, h2Magic.drop 10 ++ settingsFrame].flatten ∧
      received
        (h2LoopEnd plainEnv
          (loopStart (h2SendSettings plainEnv h2Init) [] [h2Magic ++ settingsFrame])).trace =
        [⟨.settings, 0, 0, []⟩] ∧
      (h2LoopEnd plainEnv
        (loopStart (h2SendSettings plainEnv h2Init) [] [h2Magic ++ settingsFrame])).error = none ∧
      received (h2LoopEnd plainEnv (loopStart (h2SendSettings plainEnv h2Init) []
        [h2Magic.take 10, h2Magic.drop 10 ++ settingsFrame])).trace = [] ∧
      (h2LoopEnd plainEnv (loopStart (h2SendSettings plainEnv h2Init) []
        [h2Magic.take 10, h2Magic.drop 10 ++ settingsFrame])).error = some .frameSize := by
  decide +kernel

end Cweb.H2
