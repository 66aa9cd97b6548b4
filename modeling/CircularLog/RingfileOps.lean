import CircularLog.SystemCalls
import CircularLog.Varint

/-! The member functions of class `Ringfile`, in the order in which they call each other. -/
namespace CircularLog

/-- `SeekToOffset`. -/
def seekToOffset (offset : ℕ) : Op Bool := do
  assert (offset < (← bytesMax))
  let offset ← modulo offset (← bytesMax)
  match ← lseek (u64 (headerSize+offset)) with
  | some errno =>
    -- the one failure that is recorded; a failed `read` or `write` leaves `error_` alone
    modify fun s => { s with self := { s.self with error := some errno } }
    return false
  | none => return true

/-- How `WrappingRead` and `WrappingWrite` split `size` bytes from a reduced offset on: the bytes
up to the end of the area, and the bytes from its start. -/
def splitBytes (max offset endOffset size : ℕ) : ℕ × ℕ :=
  -- an end offset equal to the offset is taken for the wrapped case, also when `size` is zero
  if offset < endOffset then (size, 0) else (sub64 max offset, sub64 size (sub64 max offset))

/-- One of the two parts of `WrappingRead`. -/
def readPart (offset : ℕ) (ptr : Buffer) (at_ count : ℕ) : Op (Bool × Buffer) := do
  if count = 0 then
    return (true, ptr)
  if !(← seekToOffset offset) then
    return (false, ptr)
  let (n, ptr) ← sysRead ptr at_ count
  return (n == count, ptr)

/-- `WrappingRead`. -/
def wrappingRead (offset : ℕ) (ptr : Buffer) (size : ℕ) : Op (Bool × Buffer) := do
  let offset ← modulo offset (← bytesMax)
  let endOffset ← modulo (u64 (offset+size)) (← bytesMax)
  let (endBytes, startBytes) := splitBytes (← bytesMax) offset endOffset size
  let (ok, ptr) ← readPart offset ptr 0 endBytes
  if !ok then
    return (false, ptr)
  readPart 0 ptr endBytes startBytes

/-- One of the two parts of `WrappingWrite`. -/
def writePart (offset : ℕ) (ptr : Buffer) (at_ count : ℕ) : Op Bool := do
  if count = 0 then
    return true
  if !(← seekToOffset offset) then
    return false
  return (← sysWrite ptr at_ count) == count

/-- `WrappingWrite`. -/
def wrappingWrite (offset : ℕ) (ptr : Buffer) (size : ℕ) : Op Bool := do
  let offset ← modulo offset (← bytesMax)
  let endOffset ← modulo (u64 (offset+size)) (← bytesMax)
  let (endBytes, startBytes) := splitBytes (← bytesMax) offset endOffset size
  if !(← writePart offset ptr 0 endBytes) then
    return false
  writePart 0 ptr endBytes startBytes

/-- `bytes_used()`. -/
def bytesUsed : Op ℕ := do
  let h ← mappedHeader
  if h.startOffset ≤ h.endOffset then
    return sub64 h.endOffset h.startOffset
  else
    return sub64 (← bytesMax) (sub64 h.startOffset h.endOffset)

/-- `bytes_available()`. -/
def bytesAvailable : Op ℕ := do
  let used ← bytesUsed
  return sub64 (← bytesMax) used

/-- The 10-byte window that every decoder of a record's length fetches; `none` when the read
fails. -/
def readVarint (offset : ℕ) : Op (Option (ℕ × ℕ)) := do
  let (ok, headerBuffer) ← wrappingRead offset uninitialized Varint.kMaxSize
  if !ok then
    return none
  return some (← reached (Varint.read headerBuffer))

/-- `header_->start_offset += n; header_->start_offset %= bytes_max()`. -/
def advanceStart (n : ℕ) : Op Unit := do
  let h ← mappedHeader
  storeHeader .advance { h with startOffset := u64 (h.startOffset+n) }
  let h ← mappedHeader
  storeHeader .reduce { h with startOffset := ← modulo h.startOffset (← bytesMax) }

/-- `header_->end_offset = n; header_->end_offset %= bytes_max()`. -/
def assignEnd (n : ℕ) : Op Unit := do
  let h ← mappedHeader
  storeHeader .advance { h with endOffset := n }
  let h ← mappedHeader
  storeHeader .reduce { h with endOffset := ← modulo h.endOffset (← bytesMax) }

/-- `PopRecord`. -/
def popRecord : Op Bool := do
  let h ← mappedHeader
  -- empty
  if h.startOffset = h.endOffset then
    return false
  match ← readVarint h.startOffset with
  | none => return false
  | some (headerSize, value) =>
    advanceStart (u64 (headerSize+value))
    return true

/-- `EndOfFile`. -/
def endOfFile : Op Bool := do
  return (← get).self.readOffset == (← mappedHeader).endOffset

/-- `!header_ || fd_ == -1`. -/
def Ringfile.isClosed (r : Ringfile) : Bool := r.header == .null || r.fd == none

/-- `NextRecordSize`: the size stored, or `none` when it returns false. -/
def nextRecordSize : Op (Option ℕ) := do
  let self := (← get).self
  if self.isClosed then
    return none
  if self.readOffset = (← mappedHeader).endOffset then
    return none
  match ← readVarint self.readOffset with
  | none => return none
  | some (_, value) => return some value

def setReadOffset (offset : ℕ) : Op Unit :=
  modify fun s => { s with self := { s.self with readOffset := offset } }

/-- `Read`: the value returned and the buffer. -/
def read (buffer : Buffer) (bufferSize : ℕ) : Op (Bool × Buffer) := do
  let self := (← get).self
  if self.isClosed then
    return (false, buffer)
  match ← readVarint self.readOffset with
  | none => return (false, buffer)
  | some (headerSize, value) =>
    -- a record that does not fit the buffer is left where it is
    if bufferSize < value then
      return (false, buffer)
    let (ok, buffer) ← wrappingRead (u64 (self.readOffset+headerSize)) buffer value
    if !ok then
      return (false, buffer)
    setReadOffset (← modulo (u64 (self.readOffset+u64 (headerSize+value))) (← bytesMax))
    return (true, buffer)

/-- The loop of `Write` and `StreamingWriteStart` that pops records until `need` bytes are
available. Each turn makes more bytes available, or the assertion stops the run, so `need` turns
are enough. -/
def popUntilAvailable (need : ℕ) : ℕ → Op Bool
  | 0 => do
    if (← bytesAvailable) < need then throw .outOfFuel else return true
  | fuel+1 => do
    let bytesAvailableStart ← bytesAvailable
    if bytesAvailableStart < need then
      if !(← popRecord) then
        return false
      assert (bytesAvailableStart < (← bytesAvailable))
      popUntilAvailable need fuel
    else
      return true

/-- What `Write` and `StreamingWriteStart` do alike: build the header, refuse a record that is too
big for the buffer, pop records until there is enough space, and write the header at the end. The
result is `header_size`, or `none` where both return false. -/
def startRecord (size : ℕ) : Op (Option ℕ) := do
  let headerSize ← reached (Varint.byteSize size)
  let headerBuffer := Varint.write size uninitialized
  -- refuse a record that is too big for the buffer; one byte is reserved here
  if (← bytesMax) < u64 (headerSize+size+1) then
    return none
  -- no byte is reserved here
  if !(← popUntilAvailable (u64 (headerSize+size)) (u64 (headerSize+size))) then
    return none
  if !(← wrappingWrite (← mappedHeader).endOffset headerBuffer headerSize) then
    return none
  return some headerSize

/-- `Write`. -/
def write (ptr : Buffer) (size : ℕ) : Op Bool := do
  match ← startRecord size with
  | none => return false
  | some headerSize =>
    if !(← wrappingWrite (u64 ((← mappedHeader).endOffset+headerSize)) ptr size) then
      return false
    assignEnd (u64 ((← mappedHeader).endOffset+u64 (headerSize+size)))
    return true

/-- `Close`. The mapping and the descriptor are gone afterwards. -/
def close : Op Bool := do
  modify fun s =>
    let self := { s.self with header := .null }
    { s with self := if self.fdIsOwned then { self with fd := none } else self }
  return true

def setStreamingWrite (offset remaining : ℕ) : Op Unit :=
  modify fun s => { s with self := { s.self with
    streamingWriteOffset := offset
    streamingWriteBytesRemaining := remaining } }

/-- `StreamingWriteStart`. -/
def streamingWriteStart (size : ℕ) : Op Bool := do
  assert ((← get).self.streamingWriteOffset = 0)
  match ← startRecord size with
  | none => return false
  | some headerSize =>
    setStreamingWrite (u64 ((← mappedHeader).endOffset+headerSize)) size
    return true

/-- `StreamingWrite`. -/
def streamingWrite (ptr : Buffer) (size : ℕ) : Op Bool := do
  let self := (← get).self
  assert (size ≤ self.streamingWriteBytesRemaining)
  if !(← wrappingWrite self.streamingWriteOffset ptr size) then
    return false
  setStreamingWrite (u64 (self.streamingWriteOffset+size))
    (sub64 self.streamingWriteBytesRemaining size)
  return true

/-- `StreamingWriteFinish`. -/
def streamingWriteFinish : Op Bool := do
  let self := (← get).self
  assert (self.streamingWriteBytesRemaining = 0)
  assignEnd self.streamingWriteOffset
  -- the count of remaining bytes is known to be zero
  setStreamingWrite 0 self.streamingWriteBytesRemaining
  return true

def setStreamingRead (offset remaining : ℕ) : Op Unit :=
  modify fun s => { s with self := { s.self with
    streamingReadOffset := offset
    streamingReadBytesRemaining := remaining } }

/-- `StreamingReadStart`. -/
def streamingReadStart : Op ℕ := do
  let self := (← get).self
  assert (self.header ≠ .null)
  assert (self.fd ≠ none)
  assert (self.streamingReadOffset = 0)
  if self.readOffset = (← mappedHeader).endOffset then
    return minusOne
  match ← readVarint self.readOffset with
  | none => return minusOne
  | some (headerSize, value) =>
    -- the cursor moves over the whole record at once
    setStreamingRead (u64 (self.readOffset+headerSize)) value
    setReadOffset (← modulo (u64 (self.readOffset+u64 (headerSize+value))) (← bytesMax))
    return value

/-- `StreamingRead`: the value returned and the buffer. -/
def streamingRead (ptr : Buffer) (size : ℕ) : Op (ℕ × Buffer) := do
  let self := (← get).self
  let size := if self.streamingReadBytesRemaining < size then self.streamingReadBytesRemaining
    else size
  if size = 0 then
    return (0, ptr)
  let (ok, ptr) ← wrappingRead self.streamingReadOffset ptr size
  if !ok then
    return (minusOne, ptr)
  setStreamingRead (u64 (self.streamingReadOffset+size))
    (sub64 self.streamingReadBytesRemaining size)
  return (size, ptr)

/-- `StreamingReadFinish`. -/
def streamingReadFinish : Op Bool := do
  let self := (← get).self
  setStreamingRead 0 self.streamingReadBytesRemaining
  return true

end CircularLog
