import VirtualCatalog.Provider.FrameDecoder

/-!
# What a frame says

`PushFrame` walks over the bytes of a frame with machine integers.  Here is what it reads, in terms
of the bytes that are left: the next message, what becomes of the state, and the bytes after the
message.  Returning is having no bytes left.

* `Found` : what nanoarrow finds at the beginning of some bytes.
* `step` : reads a message; `read` : reads the bytes to their end.
* `state_of_pushFrame` : the state that `PushFrame` leaves is the one that its bytes are read into.
-/

namespace VirtualCatalog

namespace Provider

/-! ### Reading -/

/-- What is found at the beginning of some bytes, with the decoder's state after looking. -/
inductive Found (D : Type) where
  /-- The end-of-stream marker. -/
  | marker (d : D)
  /-- No message. -/
  | refused (message : String) (d : D)
  /-- A message, and the bytes after it. -/
  | message (type : MessageType) (body rest : List UInt8) (d : D)

section Reading

variable {D E V A : Type} (N : Nanoarrow D E V A)

/-- What is found once the header is decoded. -/
def foundBody (bytes : List UInt8) (headerSize : Nat) (header : MessageHeader) (d : D) : Found D :=
  if header.bodySize.toInt < 0 then
    .refused "Arrow IPC message declares a negative body length" d
  else if bytes.length < headerSize + header.bodySize.toInt.toNat then
    .refused ("truncated Arrow IPC message: the header declares " ++
      toString (headerSize + header.bodySize.toInt.toNat) ++ " bytes but only " ++
      toString bytes.length ++ " remain") d
  else
    .message header.type ((bytes.drop headerSize).take header.bodySize.toInt.toNat)
      (bytes.drop (headerSize + header.bodySize.toInt.toNat)) d

/-- What is found once the size of the header is known. -/
def foundHeader (bytes : List UInt8) (headerSize : Int32) (prefixSize : Fin 9) (d : D) : Found D :=
  if headerSize.toInt ≤ prefixSize ∨ (bytes.length : Int) < headerSize.toInt then
    .refused ("truncated Arrow IPC message: the header length prefix exceeds " ++ "the " ++
      toString bytes.length ++ " bytes that remain") d
  else
    match N.verifyHeader d (bytes.take headerSize.toInt.toNat) >>= fun d =>
      N.decodeHeader d (bytes.take headerSize.toInt.toNat) with
    | .error message => .refused message d
    | .ok (header, d) => foundBody bytes headerSize.toInt.toNat header d

/-- What is found at the beginning of some bytes. -/
def found (d : D) (bytes : List UInt8) : Found D :=
  match N.peekHeader d bytes with
  | (.noData, d) => .marker d
  | (.failed message, d) => .refused message d
  | (.header headerSize prefixSize, d) => foundHeader N bytes headerSize prefixSize d

/-- What is done with what was found, and the bytes that are left to read. -/
def DecoderState.take (st : DecoderState D E V A) : Found D → DecoderState D E V A × List UInt8
  | .marker d => ({ st with decoder := d, done := true }, [])
  | .refused message d => ({ st with decoder := d }.fail message, [])
  | .message type body rest d =>
    match { st with decoder := d }.receive N type body with
    | .error st => (st, [])
    | .ok st => (st, rest)

/-- Read a message. -/
def step (st : DecoderState D E V A) (bytes : List UInt8) : DecoderState D E V A × List UInt8 :=
  st.take N (found N st.decoder bytes)

variable {N} {st : DecoderState D E V A} {bytes : List UInt8}

/-- Reading a message leaves fewer bytes. -/
theorem length_step_lt (h : bytes ≠ []) : (step N st bytes).2.length < bytes.length := by
  have hpos : 0 < bytes.length := List.length_pos_of_ne_nil h
  unfold step found
  split
  · exact hpos
  · exact hpos
  · unfold foundHeader
    split_ifs with hbad
    · exact hpos
    split
    · exact hpos
    unfold foundBody
    split_ifs
    · exact hpos
    · exact hpos
    · unfold DecoderState.take
      dsimp only
      split
      · exact hpos
      · rw [List.length_drop]
        omega

variable (N) in
/-- Read the bytes to their end. -/
def read (st : DecoderState D E V A) (bytes : List UInt8) : DecoderState D E V A :=
  if _h : bytes = [] then st else read (step N st bytes).1 (step N st bytes).2
termination_by bytes.length
decreasing_by exact length_step_lt _h

@[simp] theorem read_nil : read N st [] = st := by rw [read, dif_pos rfl]

theorem read_of_ne (h : bytes ≠ []) :
    read N st bytes = read N (step N st bytes).1 (step N st bytes).2 := by
  rw [read, dif_neg h]

/-! ### The code reads so -/

/-- A continuation that a step describes, in a buffer. -/
def Continuation.Is (bytes : List UInt8) (s : DecoderState D E V A × List UInt8) :
    Continuation D E V A → Prop
  | .finished _ st => s = (st, [])
  | .again off st => s = (st, bytes.drop off.toNat)

theorem is_iterateBody {it : Iteration} {headerSize : Int32} {header : MessageHeader} {d : D}
    (hsize : 0 < headerSize.toInt) (hin : it.off.toNat + it.remaining.toNat = bytes.length)
    (hfits : bytes.length < 2 ^ 63) (hheader : headerSize.toInt ≤ it.remaining.toNat) :
    (iterateBody N bytes it headerSize header { st with decoder := d }).2.Is bytes
      (st.take N (foundBody (bytes.drop it.off.toNat) headerSize.toInt.toNat header d)) := by
  have hlength : (bytes.drop it.off.toNat).length = it.remaining.toNat := by
    rw [List.length_drop]
    omega
  -- the header size is positive and at most what remains, so that no cast loses anything
  have hcast : (headerSize.toInt64.toUInt64.toNat : Int) = headerSize.toInt := by
    rw [toNat_toUInt64 (by rw [Int32.toInt_toInt64]; omega), Int32.toInt_toInt64]
  have hlt32 := headerSize.toInt_lt
  have hlt64 := header.bodySize.toInt_lt
  have hsign : header.bodySize < 0 ↔ header.bodySize.toInt < 0 := Int64.lt_iff_toInt_lt
  unfold iterateBody foundBody
  rw [hlength]
  by_cases hneg : header.bodySize.toInt < 0
  · rw [if_pos (hsign.2 hneg), if_pos hneg]
    rfl
  · rw [if_neg (mt hsign.1 hneg), if_neg hneg]
    have hbodyCast : (header.bodySize.toUInt64.toNat : Int) = header.bodySize.toInt :=
      toNat_toUInt64 (by omega)
    have hsum := toNat_add (x := headerSize.toInt64.toUInt64) (y := header.bodySize.toUInt64)
      (by omega)
    have htotal : (headerSize.toInt64.toUInt64 + header.bodySize.toUInt64).toNat =
        headerSize.toInt.toNat + header.bodySize.toInt.toNat := by omega
    dsimp only
    generalize headerSize.toInt64.toUInt64 + header.bodySize.toUInt64 = msgTotal at htotal ⊢
    -- the 64-bit sum is compared as the sum of the naturals is
    have hcondition : it.remaining < msgTotal ↔
        it.remaining.toNat < headerSize.toInt.toNat + header.bodySize.toInt.toNat := by
      rw [UInt64.lt_iff_toNat_lt, htotal]
    by_cases hshort : it.remaining.toNat < headerSize.toInt.toNat + header.bodySize.toInt.toNat
    · rw [if_pos (hcondition.2 hshort), if_pos hshort, htotal]
      rfl
    · rw [if_neg (mt hcondition.1 hshort), if_neg hshort]
      have hstart : (it.off + headerSize.toInt64.toUInt64).toNat =
          it.off.toNat + headerSize.toInt.toNat := by
        rw [toNat_add (by omega)]
        omega
      have hnext : (it.off + msgTotal).toNat = it.off.toNat + msgTotal.toNat := toNat_add (by omega)
      have hview : viewOf bytes (it.off + headerSize.toInt64.toUInt64) header.bodySize =
          ((bytes.drop it.off.toNat).drop headerSize.toInt.toNat).take
            header.bodySize.toInt.toNat := by
        rw [viewOf, hstart, List.drop_drop]
        rfl
      have hrest : (bytes.drop it.off.toNat).drop
          (headerSize.toInt.toNat + header.bodySize.toInt.toNat) =
          bytes.drop (it.off + msgTotal).toNat := by
        rw [List.drop_drop, hnext, htotal]
      rw [hview, hrest]
      unfold DecoderState.take
      dsimp only
      generalize ({ st with decoder := d } : DecoderState D E V A).receive N header.type _ = r
      cases r with
      | error st' => rfl
      | ok st' => rfl

theorem is_iterate {off : UInt64} (hfits : bytes.length < 2 ^ 63)
    (hoff : off.toNat < bytes.length) :
    (iterate N bytes (UInt64.ofNat bytes.length) off st).2.Is bytes
      (step N st (bytes.drop off.toNat)) := by
  have hsize : (UInt64.ofNat bytes.length).toNat = bytes.length := by
    rw [UInt64.toNat_ofNat', Nat.mod_eq_of_lt (by omega)]
  -- the view of the rest starts at the offset, whose length fits `int64_t`
  have hremaining : (UInt64.ofNat bytes.length - off).toNat = bytes.length - off.toNat := by
    rw [UInt64.toNat_sub_of_le _ _ (UInt64.le_iff_toNat_le.2 (by omega)), hsize]
  have hviewSize : (UInt64.ofNat bytes.length - off).toInt64.toInt =
      (UInt64.ofNat bytes.length - off).toNat := toInt_toInt64 (by omega)
  have hlength : (bytes.drop off.toNat).length = bytes.length - off.toNat := List.length_drop
  have hview : viewOf bytes off (UInt64.ofNat bytes.length - off).toInt64 = bytes.drop off.toNat := by
    rw [viewOf, List.take_of_length_le]
    show _ ≤ (UInt64.ofNat bytes.length - off).toInt64.toInt.toNat
    omega
  unfold iterate step found
  dsimp only
  rw [hview]
  generalize N.peekHeader st.decoder (bytes.drop off.toNat) = peeked
  obtain ⟨peek, d⟩ := peeked
  cases peek with
  | noData => rfl
  | failed message => rfl
  | header headerSize prefixSize =>
    dsimp only
    unfold iterateHeader foundHeader
    dsimp only
    have hbad : headerSize.toInt ≤ prefixSize ∨
        (UInt64.ofNat bytes.length - off).toInt64 < headerSize.toInt64 ↔
        headerSize.toInt ≤ prefixSize ∨ ((bytes.drop off.toNat).length : Int) < headerSize.toInt := by
      rw [Int64.lt_iff_toInt_lt, Int32.toInt_toInt64]
      omega
    by_cases hrefused :
        headerSize.toInt ≤ prefixSize ∨ ((bytes.drop off.toNat).length : Int) < headerSize.toInt
    · rw [if_pos (hbad.2 hrefused), if_pos hrefused, hlength, hremaining]
      rfl
    · rw [if_neg (mt hbad.1 hrefused), if_neg hrefused]
      obtain ⟨hwords, hheader⟩ := not_or.1 hrefused
      have hheaderView : viewOf bytes off headerSize.toInt64 =
          (bytes.drop off.toNat).take headerSize.toInt.toNat := by
        rw [viewOf, Int64.toNatClampNeg, Int32.toInt_toInt64]
      rw [hheaderView]
      generalize (N.verifyHeader d _ >>= _) = decoded
      cases decoded with
      | error message => rfl
      | ok decoded =>
        obtain ⟨header, d'⟩ := decoded
        dsimp only
        refine is_iterateBody ?_ ?_ hfits ?_
        · omega
        · dsimp only
          omega
        · dsimp only
          omega

theorem state_of_pushLoop (hfits : bytes.length < 2 ^ 63) {fuel : Nat} {off : UInt64}
    {p : Pushed D E V A} (h : pushLoop N bytes (UInt64.ofNat bytes.length) fuel off st = some p) :
    p.state = read N st (bytes.drop off.toNat) := by
  have hsize : (UInt64.ofNat bytes.length).toNat = bytes.length := by
    rw [UInt64.toNat_ofNat', Nat.mod_eq_of_lt (by omega)]
  induction fuel generalizing off st p with
  | zero => cases h
  | succ fuel ih =>
    rw [pushLoop] at h
    by_cases hlt : off < UInt64.ofNat bytes.length
    · rw [if_pos hlt] at h
      rw [UInt64.lt_iff_toNat_lt, hsize] at hlt
      have his : (iterate N bytes (UInt64.ofNat bytes.length) off st).2.Is bytes
        (step N st (bytes.drop off.toNat)) := is_iterate hfits hlt
      rw [read_of_ne (by simp [hlt])]
      generalize iterate N bytes (UInt64.ofNat bytes.length) off st = r at h his
      obtain ⟨it, continuation⟩ := r
      cases continuation with
      | finished result st' =>
        obtain rfl := Option.some.inj h
        rw [show step N st _ = (st', []) from his, read_nil]
      | again off' st' =>
        rw [show step N st _ = (st', bytes.drop off'.toNat) from his]
        rw [continueWith, Option.map_eq_some_iff] at h
        obtain ⟨p', hp', rfl⟩ := h
        have hstate : p'.state = read N st' (bytes.drop off'.toNat) := ih hp'
        exact hstate
    · rw [if_neg hlt] at h
      obtain rfl := Option.some.inj h
      rw [UInt64.lt_iff_toNat_lt, hsize] at hlt
      rw [List.drop_eq_nil_of_le (by omega), read_nil]

/-- **`PushFrame` reads the bytes of its frame.** -/
theorem state_of_pushFrame {frame : IpcFrame} {p : Pushed D E V A}
    (h : pushFrame N frame st = some p) :
    p.state = if st.failed then st else read N st frame.bytes := by
  rw [pushFrame] at h
  split_ifs at h ⊢ with hfailed
  · obtain rfl := Option.some.inj h
    rfl
  · exact state_of_pushLoop frame.fits h

/-- `PushFrame` returns, and what it returns says whether it failed. -/
theorem exists_pushFrame (frame : IpcFrame) (st : DecoderState D E V A) :
    ∃ p, pushFrame N frame st = some p ∧ (p.result = false → p.state.failed = true) := by
  have hfits := frame.fits
  rw [pushFrame]
  split_ifs with hfailed
  · exact ⟨⟨false, st, []⟩, rfl, fun _ => hfailed⟩
  · have hsize : (UInt64.ofNat frame.bytes.length).toNat = frame.bytes.length := by
      rw [UInt64.toNat_ofNat', Nat.mod_eq_of_lt (by omega)]
    obtain ⟨p, hp, hends⟩ : ∃ p, (∀ extra, pushLoop N frame.bytes
        (UInt64.ofNat frame.bytes.length) (frame.bytes.length + 1 + extra) 0 st = some p) ∧
        Ends frame.bytes.length 0 p := ends_pushLoop hsize hfits (by simp) (by simp)
    exact ⟨p, hp 0, hends.failed⟩

end Reading

end Provider

end VirtualCatalog
