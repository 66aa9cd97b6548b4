import CircularLog.Retention
import CircularLog.WrappingTransfer

/-! Which files hold a list of records, and how the operations that look at one record see them. -/
namespace CircularLog

abbrev Record := List UInt8

/-- A record as it is stored: the length the way `Varint::Write` encodes it, then the bytes. -/
def frame (r : Record) : List UInt8 := Varint.encode r.length ++ r

def frameSize (r : Record) : ℕ := Varint.size r.length+r.length

def frames (L : List Record) : List UInt8 := L.flatMap frame

/-- The total length of the frames of a list. -/
def used (L : List Record) : ℕ := weight frameSize L

@[simp] theorem used_nil : used [] = 0 := rfl

@[simp] theorem used_cons (r : Record) (L : List Record) : used (r :: L) = frameSize r+used L := rfl

@[simp] theorem used_append (L K : List Record) : used (L ++ K) = used L+used K :=
  weight_append frameSize L K

@[simp] theorem frame_length (r : Record) : (frame r).length = frameSize r := by
  simp only [frame, List.length_append, Varint.encode_length, frameSize]

@[simp] theorem frames_nil : frames [] = [] := rfl

@[simp] theorem frames_cons (r : Record) (L : List Record) :
    frames (r :: L) = frame r ++ frames L := rfl

@[simp] theorem frames_append (L K : List Record) : frames (L ++ K) = frames L ++ frames K := by
  simp only [frames, List.flatMap_append]

@[simp] theorem frames_length (L : List Record) : (frames L).length = used L := by
  induction L with
  | nil => rfl
  | cons r L ih => simp only [frames_cons, List.length_append, frame_length, ih, used_cons]

theorem frameSize_pos {r : Record} (h : frameSize r < 2^64) : 1 ≤ frameSize r := by
  have := Varint.size_pos (show r.length < 2^64 by unfold frameSize at h; omega)
  unfold frameSize
  omega

theorem used_keep_le {M need : ℕ} {K L : List Record} (hneed : need ≤ M)
    (hK : K = keep frameSize (M-need) L) : used K+need ≤ M := by
  have hle : used (keep frameSize (M-need) L) ≤ M-need := weight_keep_le frameSize _ L
  rw [← hK] at hle
  omega

/-- The bytes from `start_offset` up to `end_offset` are the frames of `L`. One byte at least stays
free, so equal offsets mean that there is no record. -/
structure Layout (M : ℕ) (f : File) (L : List Record) : Prop where
  start_lt : f.header.startOffset < M
  end_eq : f.header.endOffset = (f.header.startOffset+used L)%M
  fits : used L < M
  bytes : Stored M f.data f.header.startOffset (frames L)

def File.withStart (f : File) (offset : ℕ) : File :=
  { f with header := { f.header with startOffset := offset } }

def File.withEnd (f : File) (offset : ℕ) : File :=
  { f with header := { f.header with endOffset := offset } }

section Layout
variable {M : ℕ} {f g : File} {r q : Record} {L U K P : List Record}

theorem Layout.end_lt (h : Layout M f L) : f.header.endOffset < M := by
  rw [h.end_eq]
  exact Nat.mod_lt _ (by have := h.fits; omega)

theorem Layout.end_cases (h : Layout M f L) :
    (f.header.startOffset+used L < M ∧ f.header.endOffset = f.header.startOffset+used L) ∨
      (M ≤ f.header.startOffset+used L ∧ f.header.endOffset = f.header.startOffset+used L-M) := by
  rw [h.end_eq]
  exact add_mod_cases h.start_lt h.fits.le

/-- The way from the start to the end, going over the end of the area if need be. -/
theorem Layout.distance (h : Layout M f L) :
    (f.header.endOffset+(M-f.header.startOffset))%M = used L := by
  have hs := h.start_lt
  rw [h.end_eq, Nat.mod_add_mod,
    show f.header.startOffset+used L+(M-f.header.startOffset) = used L+M by omega,
    Nat.add_mod_right, Nat.mod_eq_of_lt h.fits]

/-- The offsets meet only when nothing is stored. -/
theorem Layout.start_eq_end_iff (h : Layout M f L) (hM : M < 2^63) :
    f.header.startOffset = f.header.endOffset ↔ L = [] := by
  have hf := h.fits
  constructor
  · intro he
    cases L with
    | nil => rfl
    | cons r L =>
      -- a frame takes at least one byte, and the frames never fill the area
      have hu := used_cons r L
      have hp := frameSize_pos (r := r) (by omega)
      rcases h.end_cases with ⟨_, hc⟩ | ⟨_, hc⟩ <;> omega
  · intro hL
    subst hL
    rw [h.end_eq]
    exact (Nat.mod_eq_of_lt h.start_lt).symm

/-- Dropping records from the front moves the start over their frames. -/
theorem Layout.withStart (h : Layout M f (P ++ K)) :
    Layout M (f.withStart ((f.header.startOffset+used P)%M)) K := by
  have hf := h.fits
  rw [used_append] at hf
  refine ⟨Nat.mod_lt _ (by omega), ?_, by omega, ?_⟩
  · dsimp only [File.withStart]
    rw [h.end_eq, Nat.mod_add_mod, used_append, Nat.add_assoc]
  · have hb := h.bytes
    rw [frames_append, stored_append, frames_length] at hb
    exact stored_mod.mpr hb.2

theorem Layout.congr (h : Layout M f L) (hg : g.header = f.header)
    (hd : ∀ p, Covers M f.header.startOffset (used L) p → g.data p = f.data p) : Layout M g L := by
  refine ⟨?_, ?_, h.fits, ?_⟩
  · rw [hg]
    exact h.start_lt
  · rw [hg]
    exact h.end_eq
  · rw [hg]
    exact h.bytes.congr (by rwa [frames_length])

/-- A frame stored at the end, with the end moved behind it, is one more record. -/
theorem Layout.withEnd (h : Layout M f L) (hr : used L+frameSize r < M)
    (hb : Stored M f.data f.header.endOffset (frame r)) :
    Layout M (f.withEnd ((f.header.endOffset+frameSize r)%M)) (L ++ [r]) := by
  refine ⟨h.start_lt, ?_, ?_, ?_⟩
  · dsimp only [File.withEnd]
    rw [h.end_eq, Nat.mod_add_mod, used_append, used_cons, used_nil, Nat.add_zero,
      Nat.add_assoc]
  · rw [used_append, used_cons, used_nil]
    omega
  · dsimp only [File.withEnd]
    rw [h.end_eq, stored_mod] at hb
    rw [frames_append, stored_append, frames_length]
    exact ⟨h.bytes, by simpa using hb⟩

/-- A frame that fills the free space to the last byte leaves the offsets equal. -/
theorem Layout.withEnd_full (h : Layout M f L) (hr : used L+frameSize r = M) :
    Layout M (f.withEnd ((f.header.endOffset+frameSize r)%M)) [] := by
  have hs := h.start_lt
  refine ⟨hs, ?_, ?_, stored_nil _ _ _⟩
  · dsimp only [File.withEnd]
    rw [h.end_eq, Nat.mod_add_mod, Nat.add_assoc, hr, Nat.add_mod_right]
    simp
  · simp only [used_nil]
    omega

theorem Layout.record_lt (h : Layout M f (r :: L)) (hM : M < 2^63) : r.length < 2^64 := by
  have hf := h.fits
  rw [used_cons] at hf
  unfold frameSize at hf
  omega

theorem Layout.head (h : Layout M f (r :: L)) :
    Stored M f.data f.header.startOffset (Varint.encode r.length) ∧
      Stored M f.data (f.header.startOffset+Varint.size r.length) r := by
  have hb := h.bytes
  rw [frames_cons, stored_append, frame, stored_append, Varint.encode_length] at hb
  exact hb.1

theorem Stored.decodes {off value : ℕ} (hv : value < 2^64)
    (h : Stored M f.data off (Varint.encode value)) :
    Varint.read (fun i => f.data ((off+i)%M)) = some (Varint.size value, value) :=
  Varint.read_encode hv _ (fun i hi => stored_iff.mp h i hi)

/-- The bytes say where a record ends, so the first record is determined by them. -/
theorem Layout.head_unique (h : Layout M f (r :: L)) (h' : Layout M f (q :: U)) (hM : M < 2^63) :
    r = q := by
  obtain ⟨hsize, hbytes⟩ := h.head
  obtain ⟨hsize', hbytes'⟩ := h'.head
  have hread := hsize.decodes (h.record_lt hM)
  rw [hsize'.decodes (h'.record_lt hM)] at hread
  have hlen : q.length = r.length := (Prod.mk.inj (Option.some.inj hread)).2
  -- both are the bytes behind the length
  calc
    r = slice M f.data (f.header.startOffset+Varint.size r.length) r.length := hbytes.symm
    _ = slice M f.data (f.header.startOffset+Varint.size q.length) q.length := by rw [hlen]
    _ = q := hbytes'

/-- A file holds one list of records at most. -/
theorem Layout.unique (h : Layout M f L) (h' : Layout M f U) (hM : M < 2^63) : L = U := by
  have hused : used L = used U := by rw [← h.distance, h'.distance]
  have hfits := h.fits
  induction L generalizing f U with
  | nil =>
    cases U with
    | nil => rfl
    | cons q U =>
      have hq := frameSize_pos (r := q) (by rw [used_nil, used_cons] at hused; omega)
      rw [used_nil, used_cons] at hused
      omega
  | cons r L ih =>
    rw [used_cons] at hused hfits
    cases U with
    | nil =>
      have hr := frameSize_pos (r := r) (by omega)
      rw [used_nil] at hused
      omega
    | cons q U =>
      have hrq := h.head_unique h' hM
      subst hrq
      rw [used_cons] at hused
      -- behind the first record both lists are stored in the same bytes
      have hl : Layout M _ L := Layout.withStart (P := [r]) h
      have hu : Layout M _ U := Layout.withStart (P := [r]) h'
      rw [ih hl hu (by omega) (by omega)]

end Layout

/-- `bytes_used()` is the total length of the frames, on both sides of the wrap. -/
theorem sat_bytesUsed {M : ℕ} {s : State} {L : List Record} {Q : ℕ → State → Prop}
    (h : Usable M s) (hl : Layout M s.file L) : Sat bytesUsed s Q ↔ Q (used L) s := by
  have hb := h.bound
  have hs := hl.start_lt
  have hf := hl.fits
  have hh : Sat mappedHeader s (fun a t => a = s.file.header ∧ t = s) := by
    rw [mappedHeader, sat_bind, sat_get, if_neg h.header, sat_pure]
    exact ⟨rfl, rfl⟩
  obtain ⟨a, t, hr, rfl, rfl⟩ := hh
  rw [bytesUsed, sat_bind, sat_of_run hr]
  rcases hl.end_cases with ⟨hlt, he⟩ | ⟨hge, he⟩
  · -- the records lie between the start and the end
    rw [if_pos (by omega), sat_pure, he, sub64_of_le (by omega) (by omega)]
    rw [Nat.add_sub_cancel_left]
  · -- they run over the end of the area, and what lies between the end and the start is free
    have hfree : sub64 t.file.header.startOffset t.file.header.endOffset = M-used L := by
      rw [sub64_of_le (by omega) (by omega)]
      omega
    rw [if_neg (by omega), sat_bind, sat_bytesMax h, sat_pure, hfree,
      sub64_of_le (by omega) (by omega), show M-(M-used L) = used L by omega]

end CircularLog
