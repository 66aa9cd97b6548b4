import CircularLog.DumpTermination
import CircularLog.LittleEndian
import CircularLog.ManyProcesses

/-! The file format that the README documents, read off the bytes alone: nothing of the program is
used to decode an image. What the program leaves in a file decodes to its records, and what decodes
to records is read back by the program. -/
namespace CircularLog

/-- A variable-length integer of at most `limit` bytes, and the bytes behind it. -/
def parseVarint : ℕ → List UInt8 → Option (ℕ × List UInt8)
  | 0, _ => none
  | _, [] => none
  | limit+1, byte :: bytes =>
    if byte.toNat < 128 then some (byte.toNat, bytes)
    else (parseVarint limit bytes).map fun d => (byte.toNat%128+128*d.1, d.2)

/-- Records one behind the other, each with its length before it, up to the last byte. -/
def parseRecords : ℕ → List UInt8 → Option (List Record)
  | _, [] => some []
  | 0, _ => none
  | turns+1, bytes => do
    let (size, rest) ← parseVarint 10 bytes
    if rest.length < size then none
    else return rest.take size :: (← parseRecords turns (rest.drop size))

/-- The records in the bytes of a file. The offsets count from the end of the header, and the last
byte of the file is followed by the first one behind the header. -/
def decodeImage (bytes : List UInt8) : Option (List Record) :=
  let area := bytes.drop 24
  let start := ofLittleEndian ((bytes.drop 8).take 8)
  let stop := ofLittleEndian ((bytes.drop 16).take 8)
  -- `RING`
  if bytes.take 4 = [0x52, 0x49, 0x4e, 0x47] ∧ start < area.length ∧ stop < area.length then
    parseRecords area.length
      ((area.rotate start).take ((stop+(area.length-start))%area.length))
  else none

def Header.image (h : Header) : List UInt8 :=
  littleEndian 4 h.magic ++ littleEndian 4 h.flags ++ littleEndian 8 h.startOffset ++
    littleEndian 8 h.endOffset

/-- The bytes of a file that holds a header at least. -/
def File.image (f : File) : List UInt8 := f.header.image ++ contents f.data (f.length-headerSize)

/-- The file that has these bytes. -/
def File.ofImage (bytes : List UInt8) : File where
  header :=
    { magic := ofLittleEndian (bytes.take 4)
      flags := ofLittleEndian ((bytes.drop 4).take 4)
      startOffset := ofLittleEndian ((bytes.drop 8).take 8)
      endOffset := ofLittleEndian ((bytes.drop 16).take 8) }
  data p := (bytes.drop headerSize).getD p 0
  length := bytes.length

section Varint
variable {limit m v : ℕ} {byte : UInt8} {bytes rest : List UInt8} {behind : Buffer}

@[simp] theorem memory_cons_zero : memory (byte :: bytes) behind 0 = byte := rfl

@[simp] theorem memory_cons_succ (i : ℕ) :
    memory (byte :: bytes) behind (i+1) = memory bytes behind i := by
  simp only [memory, List.length_cons, Nat.add_lt_add_iff_right, List.getElem_cons_succ,
    Nat.add_sub_add_right]

/-- The first byte is the lowest group. -/
theorem payload_cons (n : ℕ) :
    Varint.payload (memory (byte :: bytes) behind) (n+1) =
      byte.toNat%128+128*Varint.payload (memory bytes behind) n := by
  have hterm (i : ℕ) : (memory (byte :: bytes) behind (i+1)).toNat%128*128^(i+1) =
      128*((memory bytes behind i).toNat%128*128^i) := by
    rw [memory_cons_succ, pow_succ]
    ring
  simp only [Varint.payload, Finset.sum_range_succ', hterm, ← Finset.mul_sum]
  rw [memory_cons_zero, pow_zero, Nat.mul_one, Nat.add_comm]

/-- The parser stops at the first byte that no other one follows. -/
theorem parseVarint_last (behind : Buffer) (hm : m < limit) (hlen : m < bytes.length)
    (hbefore : ∀ i < m, 128 ≤ (memory bytes behind i).toNat)
    (hlast : (memory bytes behind m).toNat < 128) :
    parseVarint limit bytes =
      some (Varint.payload (memory bytes behind) (m+1), bytes.drop (m+1)) := by
  -- on the bytes that are still allowed
  induction limit generalizing m bytes with
  | zero => omega
  | succ limit ih =>
    cases bytes with
    | nil => cases hlen
    | cons byte bytes =>
      rw [List.length_cons] at hlen
      cases m with
      | zero =>
        rw [memory_cons_zero] at hlast
        rw [parseVarint, if_pos hlast, payload_cons, Nat.mod_eq_of_lt hlast]
        rfl
      | succ m =>
        have hfirst : 128 ≤ byte.toNat := hbefore 0 (Nat.succ_pos m)
        have hrest : parseVarint limit bytes =
            some (Varint.payload (memory bytes behind) (m+1), bytes.drop (m+1)) := by
          apply ih (by omega) (by omega)
          · intro i hi
            simpa using hbefore (i+1) (by omega)
          · simpa using hlast
        rw [parseVarint, if_neg (by omega), hrest, payload_cons]
        rfl

theorem parseVarint_cases (behind : Buffer) {d : ℕ × List UInt8}
    (h : parseVarint limit bytes = some d) :
    ∃ m < limit, m < bytes.length ∧ (∀ i < m, 128 ≤ (memory bytes behind i).toNat) ∧
      (memory bytes behind m).toNat < 128 := by
  induction limit generalizing bytes d with
  | zero => cases h
  | succ limit ih =>
    cases bytes with
    | nil => cases h
    | cons byte bytes =>
      rw [parseVarint] at h
      split_ifs at h with hlast
      · exact ⟨0, Nat.succ_pos _, Nat.succ_pos _, by simp, hlast⟩
      · obtain ⟨d', hd', _⟩ := Option.map_eq_some_iff.mp h
        obtain ⟨m, hm, hlen, hbefore, hend⟩ := ih hd'
        refine ⟨m+1, by omega, by simpa using hlen, ?_, by simpa using hend⟩
        intro i hi
        cases i with
        | zero => simpa using Nat.le_of_not_lt hlast
        | succ i => simpa using hbefore i (by omega)

/-- What the parser takes for an integer, `Varint::Read` reads as the same one. -/
theorem Varint.read_of_parseVarint (behind : Buffer) (h : parseVarint 10 bytes = some (v, rest)) :
    ∃ n, 1 ≤ n ∧ n ≤ 10 ∧ n ≤ bytes.length ∧ rest = bytes.drop n ∧
      (v < 2^64 → Varint.read (memory bytes behind) = some (n, v)) := by
  obtain ⟨m, hm, hlen, hbefore, hlast⟩ := parseVarint_cases behind h
  rw [parseVarint_last behind hm hlen hbefore hlast] at h
  obtain ⟨rfl, rfl⟩ := Prod.mk.inj (Option.some.inj h)
  refine ⟨m+1, by omega, by omega, by omega, rfl, fun hv => ?_⟩
  rw [Varint.read_last hbefore hlast hm, u64_of_lt hv]

/-- What `Varint::Write` stores, the parser takes for the value. -/
theorem parseVarint_encode (hv : v < 2^64) (rest : List UInt8) :
    parseVarint 10 (Varint.encode v ++ rest) = some (v, rest) := by
  have hbuffer (i : ℕ) (hi : i < (Varint.encode v).length) :
      memory (Varint.encode v ++ rest) uninitialized i = (Varint.encode v)[i] := by
    rw [memory_append, memory_of_lt hi]
  -- the parser stops where `Varint::Read` does, which knows the value
  have hread := Varint.read_encode hv _ hbuffer
  have hlen := Varint.encode_length v
  rcases Varint.read_cases (memory (Varint.encode v ++ rest) uninitialized) with
    ⟨_, hnone⟩ | ⟨m, hm, hbefore, hlast, hsome⟩
  · rw [hread] at hnone
    cases hnone
  · rw [hread] at hsome
    have hsize : Varint.size v = m+1 := (Prod.mk.inj (Option.some.inj hsome)).1
    -- the groups of the encoding add up to the value
    have hpayload : Varint.payload (memory (Varint.encode v ++ rest) uninitialized) (m+1) = v := by
      rw [← hsize, Varint.payload_group (n := Varint.size v) (fun i hi => ?_) le_rfl]
      · exact Nat.mod_eq_of_lt (Varint.size_groups hv).lt
      · rw [hbuffer i (by omega), Varint.encode_getElem hv]
    rw [parseVarint_last uninitialized hm (by rw [List.length_append]; omega) hbefore hlast,
      hpayload, ← hsize, ← hlen, List.drop_left]

end Varint

section Image
variable {M v : ℕ} {f : File} {L : List Record} {r : Record} {bytes : List UInt8}

theorem parseRecords_cons {turns : ℕ} (hr : r.length < 2^64) (bytes : List UInt8) :
    parseRecords (turns+1) (frame r ++ bytes) =
      (parseRecords turns bytes).map (fun L => r :: L) := by
  have hparse := parseVarint_encode hr (r ++ bytes)
  have hpos := Varint.size_pos hr
  -- a frame is never empty, so the parser takes a turn
  obtain ⟨byte, tail, hcons⟩ : ∃ byte tail, frame r ++ bytes = byte :: tail := by
    apply List.exists_cons_of_ne_nil
    apply List.ne_nil_of_length_pos
    rw [List.length_append, frame_length, frameSize]
    omega
  rw [frame, List.append_assoc] at hcons ⊢
  rw [hcons] at hparse ⊢
  rw [parseRecords, hparse]
  · simp only [Option.bind_eq_bind, Option.bind_some, List.length_append, Option.pure_def]
    rw [if_neg (by omega), List.take_left, List.drop_left]
    cases parseRecords turns bytes <;> rfl
  · simp

theorem parseRecords_frames {turns : ℕ} (hL : ∀ r ∈ L, r.length < 2^64) (ht : L.length ≤ turns) :
    parseRecords turns (frames L) = some L := by
  -- on the records, a turn for each
  induction L generalizing turns with
  | nil => cases turns <;> rfl
  | cons r L ih =>
    rw [List.length_cons] at ht
    obtain ⟨turns, rfl⟩ : ∃ k, turns = k+1 := ⟨turns-1, by omega⟩
    rw [frames_cons, parseRecords_cons (hL r List.mem_cons_self),
      ih (fun q hq => hL q (List.mem_cons_of_mem _ hq)) (by omega)]
    rfl

/-- Going round the area once, seen on its bytes. -/
theorem take_rotate (start n : ℕ) (hn : n ≤ bytes.length) :
    (bytes.rotate start).take n = slice bytes.length (fun p => bytes.getD p 0) start n := by
  apply List.ext_getElem
  · rw [List.length_take, List.length_rotate, slice_length, Nat.min_eq_left hn]
  · intro i hi hi'
    rw [slice_length] at hi'
    have hlt : (start+i)%bytes.length < bytes.length := Nat.mod_lt _ (by omega)
    rw [List.getElem_take, List.getElem_rotate, slice_getElem, List.getD_eq_getElem _ _ hlt]
    simp only [Nat.add_comm]

/-- The decoder in terms of the file that has the bytes. -/
theorem decodeImage_eq (hM : bytes.length = M+24) :
    decodeImage bytes =
      if (File.ofImage bytes).header.magic = kMagic ∧ (File.ofImage bytes).header.startOffset < M ∧
        (File.ofImage bytes).header.endOffset < M then
        parseRecords M (slice M (File.ofImage bytes).data (File.ofImage bytes).header.startOffset
          (((File.ofImage bytes).header.endOffset+(M-(File.ofImage bytes).header.startOffset))%M))
      else none := by
  have harea : (bytes.drop 24).length = M := by
    rw [List.length_drop]
    omega
  have hmagic : bytes.take 4 = [0x52, 0x49, 0x4e, 0x47] ↔
      (File.ofImage bytes).header.magic = kMagic := by
    constructor
    · intro h
      dsimp only [File.ofImage]
      rw [h]
      rfl
    · intro h
      -- four bytes are determined by the number they stand for
      have hlen : (bytes.take 4).length = 4 := by
        rw [List.length_take]
        omega
      calc
        bytes.take 4 = littleEndian (bytes.take 4).length (ofLittleEndian (bytes.take 4)) :=
          (littleEndian_ofLittleEndian _).symm
        _ = littleEndian 4 kMagic := by
          rw [hlen]
          exact congrArg (littleEndian 4) h
        _ = [0x52, 0x49, 0x4e, 0x47] := by decide
  unfold decodeImage
  simp only [hmagic, harea]
  apply if_ctx_congr Iff.rfl _ (fun _ => rfl)
  intro h
  obtain ⟨_, hstart, _⟩ := h
  have hlt : ofLittleEndian ((bytes.drop 16).take 8)+(M-ofLittleEndian ((bytes.drop 8).take 8)) <
      M+(ofLittleEndian ((bytes.drop 16).take 8)+M) := by omega
  rw [take_rotate _ _ (by rw [harea]; exact (Nat.mod_lt _ (by omega)).le), harea]
  rfl

@[simp] theorem Header.image_length (h : Header) : h.image.length = headerSize := by
  simp only [Header.image, List.length_append, littleEndian_length, headerSize]

theorem File.image_length (h : f.length = M+24) : f.image.length = M+24 := by
  rw [File.image, List.length_append, Header.image_length, contents_length, h, headerSize]
  omega

theorem File.image_ofImage (h : headerSize ≤ bytes.length) :
    (File.ofImage bytes).image = bytes := by
  have hfield (k n : ℕ) (hk : k+n ≤ headerSize) :
      littleEndian n (ofLittleEndian ((bytes.drop k).take n)) = (bytes.drop k).take n := by
    have hlen : ((bytes.drop k).take n).length = n := by
      rw [List.length_take, List.length_drop]
      omega
    have hback := littleEndian_ofLittleEndian ((bytes.drop k).take n)
    rwa [hlen] at hback
  have hdata : contents (File.ofImage bytes).data (bytes.length-headerSize) =
      bytes.drop headerSize := by
    rw [← List.length_drop]
    apply contents_eq
    intro i hi
    exact List.getD_eq_getElem _ _ hi
  -- the four fields are the first 24 bytes
  have hmagic := hfield 0 4 (by unfold headerSize; omega)
  rw [List.drop_zero] at hmagic
  calc
    (File.ofImage bytes).image
        = bytes.take 4 ++ (bytes.drop 4).take 4 ++ (bytes.drop 8).take 8 ++
            (bytes.drop 16).take 8 ++ bytes.drop headerSize := by
      rw [← hdata]
      unfold File.image Header.image
      dsimp only [File.ofImage]
      rw [hmagic, hfield 4 4 (by unfold headerSize; omega),
        hfield 8 8 (by unfold headerSize; omega), hfield 16 8 le_rfl]
    _ = bytes := by
      simp only [List.append_assoc, headerSize]
      rw [← List.drop_drop (i := 8) (j := 16), List.take_append_drop,
        ← List.drop_drop (i := 8) (j := 8), List.take_append_drop,
        ← List.drop_drop (i := 4) (j := 4), List.take_append_drop, List.take_append_drop]

/-- The fields of the header and the cells of the area, taken back from the bytes. -/
theorem File.ofImage_image (hlen : f.length = M+24) (hmagic : f.header.magic < 2^32)
    (hstart : f.header.startOffset < 2^64) (hend : f.header.endOffset < 2^64) :
    (File.ofImage f.image).header.magic = f.header.magic ∧
      (File.ofImage f.image).header.startOffset = f.header.startOffset ∧
      (File.ofImage f.image).header.endOffset = f.header.endOffset ∧
      ∀ p < M, (File.ofImage f.image).data p = f.data p := by
  have hbytes : f.image = littleEndian 4 f.header.magic ++ (littleEndian 4 f.header.flags ++
      (littleEndian 8 f.header.startOffset ++ (littleEndian 8 f.header.endOffset ++
        contents f.data M))) := by
    simp only [File.image, Header.image, List.append_assoc, hlen, headerSize,
      Nat.add_sub_cancel]
  -- behind one field the next one begins
  have hskip (k n : ℕ) {value : ℕ} {rest : List UInt8}
      (h : f.image.drop k = littleEndian n value ++ rest) : f.image.drop (k+n) = rest := by
    rw [← List.drop_drop, h, List.drop_left' (littleEndian_length n value)]
  have h4 := hskip 0 4 (by rw [List.drop_zero]; exact hbytes)
  have h8 := hskip 4 4 h4
  have h16 := hskip 8 8 h8
  have h24 := hskip 16 8 h16
  refine ⟨?_, ?_, ?_, ?_⟩
  · dsimp only [File.ofImage]
    rw [hbytes, List.take_left' (littleEndian_length 4 _), ofLittleEndian_littleEndian hmagic]
  · dsimp only [File.ofImage]
    rw [h8, List.take_left' (littleEndian_length 8 _), ofLittleEndian_littleEndian hstart]
  · dsimp only [File.ofImage]
    rw [h16, List.take_left' (littleEndian_length 8 _), ofLittleEndian_littleEndian hend]
  · intro p hp
    have hcell : p < (contents f.data M).length := by rwa [contents_length]
    dsimp only [File.ofImage, headerSize]
    rw [h24, List.getD_eq_getElem _ _ hcell, contents_getElem]

/-- What the program leaves in a file is in the format. -/
theorem Layout.decodeImage (hl : Layout M f L) (hlen : f.length = M+24) (hb : M+24 < 2^63)
    (hmagic : f.header.magic = kMagic) : decodeImage f.image = some L := by
  have hs := hl.start_lt
  have he := hl.end_lt
  have hfits := hl.fits
  obtain ⟨hm, hstart, hend, hdata⟩ := File.ofImage_image hlen (by rw [hmagic]; decide)
    (by omega) (by omega)
  rw [decodeImage_eq (File.image_length hlen), hm, hstart, hend, if_pos ⟨hmagic, hs, he⟩,
    hl.distance]
  -- the cells that the decoder looks at are those of the records
  have hbytes : slice M (File.ofImage f.image).data f.header.startOffset (used L) = frames L := by
    rw [slice_congr M f.data]
    · have hstored := hl.bytes
      rwa [Stored, frames_length] at hstored
    · rintro p ⟨i, _, rfl⟩
      exact hdata _ (Nat.mod_lt _ (by omega))
  rw [hbytes]
  apply parseRecords_frames
  · intro r hr
    have hr := hl.length_lt hr
    omega
  · have hcount := length_le_used (L := L) (by omega)
    omega

end Image

/-- From the cursor to the end offset, the bytes parse to the records `U`. -/
structure Ahead (M : ℕ) (f : File) (c : ℕ) (U : List Record) : Prop where
  cursor_lt : c < M
  end_lt : f.header.endOffset < M
  parses : ∃ turns, parseRecords turns (slice M f.data c ((f.header.endOffset+(M-c))%M)) = some U

section Ahead
variable {M c : ℕ} {f : File} {s : State} {r : Record} {U : List Record} {bytes : List UInt8}

theorem parseRecords_nil {turns : ℕ} (h : parseRecords turns bytes = some []) : bytes = [] := by
  cases bytes with
  | nil => rfl
  | cons byte bytes =>
    cases turns with
    | zero => cases h
    | succ turns =>
      simp only [parseRecords, Option.bind_eq_bind, Option.bind_eq_some_iff] at h
      obtain ⟨d, _, h⟩ := h
      split_ifs at h
      obtain ⟨L, _, h⟩ := Option.bind_eq_some_iff.mp h
      cases h

theorem parseRecords_some {turns : ℕ} (h : parseRecords turns bytes = some (r :: U)) :
    ∃ rest turns', parseVarint 10 bytes = some (r.length, r ++ rest) ∧
      parseRecords turns' rest = some U := by
  cases bytes with
  | nil => cases turns <;> cases h
  | cons byte bytes =>
    cases turns with
    | zero => cases h
    | succ turns =>
      simp only [parseRecords, Option.bind_eq_bind, Option.bind_eq_some_iff] at h
      obtain ⟨d, hd, h⟩ := h
      split_ifs at h with hroom
      obtain ⟨L, hL, h⟩ := Option.bind_eq_some_iff.mp h
      obtain ⟨hr, rfl⟩ := List.cons.inj (Option.some.inj h)
      have hlen : r.length = d.1 := by
        rw [← hr, List.length_take]
        omega
      refine ⟨d.2.drop d.1, turns, ?_, hL⟩
      rw [hlen, ← hr, List.take_append_drop]
      exact hd

/-- The way to the end offset, which is not reached before the records are over. -/
theorem Ahead.distance (h : Ahead M f c U) :
    (f.header.endOffset+(M-c))%M < M ∧ (c+(f.header.endOffset+(M-c))%M)%M = f.header.endOffset := by
  have hc := h.cursor_lt
  refine ⟨Nat.mod_lt _ (by omega), ?_⟩
  rw [Nat.add_mod_mod, show c+(f.header.endOffset+(M-c)) = f.header.endOffset+M by omega,
    Nat.add_mod_right, Nat.mod_eq_of_lt h.end_lt]

theorem Ahead.nil (h : Ahead M f c []) : c = f.header.endOffset := by
  obtain ⟨turns, hparse⟩ := h.parses
  obtain ⟨_, hend⟩ := h.distance
  have hzero : (f.header.endOffset+(M-c))%M = 0 := by
    rw [← slice_length M f.data c ((f.header.endOffset+(M-c))%M), parseRecords_nil hparse]
    rfl
  rwa [hzero, Nat.add_zero, Nat.mod_eq_of_lt h.cursor_lt] at hend

/-- The record in front, as the program finds it, and what is pending behind it. -/
theorem Ahead.cons (h : Ahead M f c (r :: U)) (hM : M < 2^63) :
    c ≠ f.header.endOffset ∧ ∃ n, 1 ≤ n ∧ n ≤ 10 ∧
      Varint.read (window M f c) = some (n, r.length) ∧ n+r.length < M ∧
      slice M f.data (c+n) r.length = r ∧ Ahead M f ((c+(n+r.length))%M) U := by
  obtain ⟨turns, hparse⟩ := h.parses
  obtain ⟨hlt, hend⟩ := h.distance
  have hc := h.cursor_lt
  have he := h.end_lt
  generalize hD : (f.header.endOffset+(M-c))%M = D at hparse hlt hend
  obtain ⟨rest, turns', hvarint, hrest⟩ := parseRecords_some hparse
  -- behind the bytes that are parsed, the window goes on with the rest of the area
  have hwindow : memory (slice M f.data c D) (fun i => f.data ((c+D+i)%M)) = window M f c := by
    funext i
    by_cases hi : i < D
    · rw [memory_of_lt (by rwa [slice_length]), slice_getElem, window]
    · rw [memory, dif_neg (by rwa [slice_length]), slice_length, window]
      rw [show c+D+(i-D) = c+i by omega]
  obtain ⟨n, hn, hmax, hin, hdrop, hread⟩ :=
    Varint.read_of_parseVarint (fun i => f.data ((c+D+i)%M)) hvarint
  rw [slice_length] at hin
  rw [hwindow] at hread
  -- what is parsed splits into the length, the record and the rest
  have hbehind : slice M f.data (c+n) (D-n) = r ++ rest := by
    have hsplit := slice_add M f.data c n (D-n)
    rw [Nat.add_sub_cancel' hin] at hsplit
    rw [hdrop, hsplit, List.drop_left' (slice_length _ _ _ _)]
  have hlen := congrArg List.length hbehind
  rw [slice_length, List.length_append] at hlen
  have hparts := slice_add M f.data (c+n) r.length rest.length
  rw [← hlen, hbehind] at hparts
  obtain ⟨hrecord, htail⟩ := List.append_inj hparts (slice_length _ _ _ _).symm
  have hne : c ≠ f.header.endOffset := by
    intro heq
    rw [heq, Nat.add_sub_cancel' he.le, Nat.mod_self] at hD
    omega
  refine ⟨hne, n, hn, hmax, hread (by omega), by omega, hrecord.symm,
    Nat.mod_lt _ (by omega), he, turns', ?_⟩
  have hleft : (f.header.endOffset+(M-(c+(n+r.length))%M))%M = rest.length := by
    have hnew : (c+(n+r.length))%M < M := Nat.mod_lt _ (by omega)
    -- from the new cursor the end is as far away as the rest is long
    have hstop : f.header.endOffset = ((c+(n+r.length))%M+rest.length)%M := by
      rw [← hend, Nat.mod_add_mod, show c+D = c+(n+r.length)+rest.length by omega]
    rw [hstop, Nat.mod_add_mod,
      show (c+(n+r.length))%M+rest.length+(M-(c+(n+r.length))%M) = rest.length+M by omega,
      Nat.add_mod_right, Nat.mod_eq_of_lt (by omega)]
  rw [hleft, slice_mod, ← Nat.add_assoc, ← htail]
  exact hrest

/-- `Read` with a buffer of the length that was decoded, when that much lies in the area. -/
theorem read_whole_decoded (hM : 10 ≤ M) (h : ReaderAt M f c s) {n : ℕ}
    (hc : c+(n+r.length) < 2^64) (hd : Varint.read (window M f c) = some (n, r.length))
    (hfits : n+r.length < M)
    (hr : r ≠ []) (hbytes : slice M f.data (c+n) r.length = r) (buffer : Buffer) :
    Sat (read buffer r.length) s (fun v t => v.1 = true ∧ contents v.2 r.length = r ∧
      ReaderAt M f ((c+(n+r.length))%M) t) := by
  have hb := h.usable.bound
  have hlen : 1 ≤ r.length := List.length_pos_iff.mpr hr
  rw [read, sat_bind, sat_get, if_neg (by simp [h.usable.isClosed]), h.cursor]
  apply (readVarint_decoded h.usable h.ideal hM (by rw [h.file]; exact hd)).bind
  intro v t hspec
  obtain ⟨rfl, hm, hf⟩ := hspec
  have ht := h.moved hm hf
  dsimp only
  rw [if_neg (lt_irrefl _), u64_of_lt (by omega)]
  apply (wrappingRead_spec ht.usable _ buffer hlen (by omega)).bind
  intro v u hspec
  obtain ⟨ok, buffer'⟩ := v
  obtain ⟨hm', hf', hread, _, hok⟩ := hspec
  have hu := ht.moved hm' hf'
  have hyes : ok = true := hok ht.ideal
  rw [sat_unless]
  refine ⟨fun hno => absurd hyes (ne_true_of_eq_false hno), fun _ => ?_⟩
  have hcontents : contents buffer' r.length = r := by
    apply contents_eq
    intro i hi
    have hbyte : buffer' i = t.file.data ((c+n+i)%M) := hread hyes i hi
    rw [hbyte, ht.file]
    exact stored_iff.mp hbytes i hi
  rw [sat_bind, sat_bytesMax hu.usable, sat_bind, sat_modulo (by omega), sat_bind, setReadOffset,
    sat_modify, sat_pure, u64_of_lt (show n+r.length < 2^64 by omega), u64_of_lt (by omega)]
  exact ⟨rfl, hcontents, hu.usable.congr rfl rfl rfl rfl, hu.ideal, hu.file, rfl⟩

/-- The loop of `Command::Read` returns what is ahead. -/
theorem readLoop_ahead {stringMaxSize : ℕ} (hstring : M ≤ stringMaxSize) (hM : 10 ≤ M)
    (h : ReaderAt M f c s) (hU : Ahead M f c U) (hne : ∀ r ∈ U, r ≠ []) (turns : ℕ)
    (ht : U.length < turns) :
    Sat (readLoop stringMaxSize turns) s (fun v _ => v = (U, true)) := by
  -- on the turns; each takes the record in front, and the last one finds none
  induction turns generalizing s c U with
  | zero => omega
  | succ turns ih =>
    have hb := h.usable.bound
    rw [readLoop]
    cases U with
    | nil =>
      have hend : s.self.readOffset = s.file.header.endOffset := by
        rw [h.cursor, h.file]
        exact hU.nil
      apply (nextRecordSize_end h.usable hend).bind
      intro v t hspec
      rw [hspec.1, sat_pure]
    | cons r U =>
      obtain ⟨hstop, n, _, _, hd, hfits, hbytes, hrest⟩ := hU.cons (by omega)
      apply (nextRecordSize_decoded (n := n) (v := r.length) h.usable h.ideal hM ?_ ?_).bind
      · intro v t hspec
        obtain ⟨rfl, hm, hf⟩ := hspec
        dsimp only
        rw [if_neg (by omega)]
        have hc := hU.cursor_lt
        apply (read_whole_decoded hM (h.moved hm hf) (by omega) hd hfits
          (hne r List.mem_cons_self) hbytes _).bind
        intro v u hspec
        obtain ⟨ok, buffer⟩ := v
        obtain ⟨hok, hcontents, hu⟩ := hspec
        rw [sat_unless]
        refine ⟨fun hno => absurd hok (ne_true_of_eq_false hno), fun _ => ?_⟩
        rw [List.length_cons] at ht
        apply (ih hu hrest (fun q hq => hne q (List.mem_cons_of_mem _ hq)) (by omega)).bind
        intro v w hspec
        rw [hspec, sat_pure, hcontents]
      · rw [h.cursor, h.file]
        exact hstop
      · rw [h.cursor, h.file]
        exact hd

theorem parseRecords_length {turns : ℕ} (h : parseRecords turns bytes = some U) :
    U.length ≤ bytes.length := by
  -- on the records; the length of each takes a byte at least
  induction U generalizing turns bytes with
  | nil => exact Nat.zero_le _
  | cons r U ih =>
    obtain ⟨rest, turns', hvarint, hrest⟩ := parseRecords_some h
    obtain ⟨n, hn, _, hin, hdrop, _⟩ := Varint.read_of_parseVarint uninitialized hvarint
    have hlen := congrArg List.length hdrop
    have hU := ih hrest
    rw [List.length_append, List.length_drop] at hlen
    rw [List.length_cons]
    omega

end Ahead

/-- Whatever program wrote it: a file whose bytes decode to records is read back as these records.
-/
theorem format_readable {bytes : List UInt8} {L : List Record} (h : decodeImage bytes = some L)
    (hne : ∀ r ∈ L, r ≠ []) (hmin : 34 ≤ bytes.length) (hmax : bytes.length < 2^63)
    (junk : Ringfile) : readBack junk (File.ofImage bytes) = some L := by
  obtain ⟨M, hM⟩ : ∃ M, bytes.length = M+24 := ⟨bytes.length-24, by omega⟩
  rw [decodeImage_eq hM] at h
  split_ifs at h with hheader
  obtain ⟨hmagic, hstart, hend⟩ := hheader
  have hopened : openFile junk.construct (some (File.ofImage bytes)) .read allDone =
      .opened (openedState junk.construct (File.ofImage bytes) .read allDone) :=
    openFile_eq junk.construct .read (fun _ => rfl) (show bytes.length ≠ 0 by omega) hmagic
  have hreader : ReaderAt M (File.ofImage bytes) (File.ofImage bytes).header.startOffset
      (openedState junk.construct (File.ofImage bytes) .read allDone) :=
    ⟨⟨by simp [openedState], by simp [openedState], hM, hM, by omega⟩, fun _ => rfl, rfl, rfl⟩
  -- the loop of the reader has turns enough
  have hturns : L.length < (File.ofImage bytes).length+1 := by
    have hlen := parseRecords_length h
    have hlt := Nat.mod_lt ((File.ofImage bytes).header.endOffset+
      (M-(File.ofImage bytes).header.startOffset)) (show M > 0 by omega)
    rw [slice_length] at hlen
    change L.length < bytes.length+1
    omega
  -- the decoder has found the records ahead of the start offset
  have hlength : M ≤ (File.ofImage bytes).length := by
    change M ≤ bytes.length
    omega
  obtain ⟨v, t, hrun, rfl⟩ := readLoop_ahead hlength (by omega) hreader ⟨hstart, hend, M, h⟩ hne _
    hturns
  rw [readBack, hopened]
  dsimp only
  rw [hrun]

/-- Two records of another program, which spends two bytes on the first length; the first record
goes over the end of the area. -/
def foreignImage : List UInt8 :=
  [0x52, 0x49, 0x4e, 0x47, 0, 0, 0, 0, 9, 0, 0, 0, 0, 0, 0, 0, 3, 0, 0, 0, 0, 0, 0, 0,
    8, 1, 5, 0, 0, 0, 0, 0, 0, 0x82, 0x00, 7]

theorem format_readable_foreign :
    decodeImage foreignImage = some [[7, 8], [5]] ∧
      readBack blank (File.ofImage foreignImage) = some [[7, 8], [5]] := by
  have h : decodeImage foreignImage = some [[7, 8], [5]] := by decide +kernel
  exact ⟨h, format_readable h (by decide) (by decide) (by decide) blank⟩

end CircularLog
