import CircularLog.AppendDump
import CircularLog.CommandContract
import CircularLog.Transducer

/-! The tool over any number of invocations: a store of bounded logs, one under each path. The files
of the paths are the concrete state; the lines that they hold, with the capacity, are the abstract
one. -/
namespace CircularLog

/-- One start of the tool, with what the memory of its object and the memory behind its lines hold.
-/
structure Invocation where
  program : Text
  options : List Delivered
  operands : List Text
  stdin : Text
  junk : Ringfile
  behind : ℕ → Buffer

/-- The command line once it is parsed, and whether it was accepted. -/
def Invocation.parsed (v : Invocation) : Bool × CommandLine :=
  (CommandLine.construct v.stdin [] []).parse v.program v.options v.operands

def statusOf (ok : Bool) : Exit := .status (if ok then 0 else 1)

/-- How the process ends, what it printed, and what the paths name then. -/
def CommandLine.outcome (c : CommandLine) (disk : Text → Option File) :
    Option Finished → (Exit × Text) × (Text → Option File)
  | none => ((.indeterminate, c.stdout), disk)
  | some (.fault f) => ((.stopped f, c.stdout), disk)
  | some (.returned ok c' file) =>
    ((statusOf ok, c'.stdout), Function.update disk c.path file)

/-- `Command::Main`, every system call doing all it is asked for. -/
def Invocation.main (strerror : Option ℕ → Text) (stringMaxSize turns : ℕ)
    (disk : Text → Option File) (v : Invocation) : (Exit × Text) × (Text → Option File) :=
  let (ok, c) := v.parsed
  if !ok then ((statusOf false, c.stdout), disk)
  else c.outcome disk (c.dispatch strerror stringMaxSize v.junk disk allDone v.behind turns)

/-- A log of lines whose frames take less than `capacity` bytes. -/
structure Log where
  capacity : ℕ
  lines : List Text

/-- Take lines one by one, dropping old ones for them, up to the first that can never fit. -/
def Log.add (l : Log) : List Text → Bool × Log
  | [] => (true, l)
  | line :: lines =>
    if frameSize line < l.capacity then
      Log.add { l with lines := afterWrite l.capacity l.lines line } lines
    else (false, l)

/-- What a command line does to a store of logs. -/
def CommandLine.tell (c : CommandLine) (logs : Text → Option Log) :
    (Exit × Text) × (Text → Option Log) :=
  match c.mode, logs c.path with
  | .unspecified, _ => ((.indeterminate, c.stdout), logs)
  | .read, some l => ((statusOf true, c.stdout ++ printed l.lines), logs)
  | .stat, some l =>
    ((statusOf true, c.stdout ++
      statReport c.path l.capacity (used l.lines) (l.capacity-used l.lines)), logs)
  | .append, some l =>
    let (ok, l) := l.add (getLines c.stdin)
    ((statusOf ok, c.stdout), Function.update logs c.path (some l))
  | .append, none =>
    if c.size = -1 then ((statusOf false, c.stdout), logs)
    else
      let (ok, l) := (⟨c.size.toNat-headerSize, []⟩ : Log).add (getLines c.stdin)
      ((statusOf ok, c.stdout), Function.update logs c.path (some l))
  | _, none => ((statusOf false, c.stdout), logs)

/-- The tool as it is meant. -/
def Invocation.tell (logs : Text → Option Log) (v : Invocation) :
    (Exit × Text) × (Text → Option Log) :=
  let (ok, c) := v.parsed
  if !ok then ((statusOf false, c.stdout), logs) else c.tell logs

/-- No line is blank, each is one that a string can hold, and a size that is given leaves room for
ten bytes of data. -/
structure Invocation.Valid (stringMaxSize : ℕ) (v : Invocation) : Prop where
  stdin_lt : v.stdin.length < 2^63
  nonblank : ∀ line ∈ getLines v.stdin, line ≠ []
  strings : ∀ line ∈ getLines v.stdin, line.length ≤ stringMaxSize
  size : v.parsed.2.size = -1 ∨ (34 ≤ v.parsed.2.size ∧ v.parsed.2.size < 2^63)

/-- The file holds the lines of the log. -/
structure File.Keeps (f : File) (l : Log) : Prop where
  capacity : 10 ≤ l.capacity
  wellFormed : WellFormed l.capacity f l.lines

/-- The file holds the lines of the log, and there is a string for each of them. -/
structure File.Prints (stringMaxSize : ℕ) (f : File) (l : Log) : Prop extends f.Keeps l where
  strings : ∀ line ∈ l.lines, line.length ≤ stringMaxSize

/-- Each path names a file where the other store has a log, and the file holds it. -/
def Stores (stringMaxSize : ℕ) (disk : Text → Option File) (logs : Text → Option Log) : Prop :=
  ∀ path, Option.Rel (File.Prints stringMaxSize) (disk path) (logs path)

section ToolHistories
variable {strerror : Option ℕ → Text} {stringMaxSize turns : ℕ} {f : File} {l : Log}
  {c : CommandLine} {s : State} {lines : List Text} {line : Text}

theorem getLines_length {t : Text} (h : line ∈ getLines t) : line.length ≤ t.length := by
  -- on the bytes; each ends a line or goes in front of the first one
  induction t generalizing line with
  | nil => cases h
  | cons b rest ih =>
    rw [getLines] at h
    rw [List.length_cons]
    split_ifs at h
    · rcases List.mem_cons.mp h with rfl | h
      · exact Nat.zero_le _
      · exact (ih h).trans (Nat.le_succ _)
    · cases hrest : getLines rest with
      | nil =>
        rw [hrest] at h
        dsimp only at h
        rw [List.mem_singleton.mp h, List.length_singleton]
        omega
      | cons first others =>
        rw [hrest] at h ih
        rcases List.mem_cons.mp h with rfl | h
        · rw [List.length_cons]
          exact Nat.succ_le_succ (ih List.mem_cons_self)
        · exact (ih (List.mem_cons_of_mem _ h)).trans (Nat.le_succ _)

/-- The loop of `Command::Write` on a ring that holds a log. -/
theorem writeLines_add (hM : 10 ≤ l.capacity) (h : Ready l.capacity s l.lines)
    (hne : ∀ line ∈ lines, line ≠ []) (hlt : ∀ line ∈ lines, line.length < 2^63)
    (behind : ℕ → Buffer) :
    Sat (writeLines behind lines) s (fun ok t => ok = (l.add lines).1 ∧
      (l.add lines).2.capacity = l.capacity ∧ Ready l.capacity t (l.add lines).2.lines) := by
  -- on the lines; a line that fits is one step of the log
  induction lines generalizing s l with
  | nil => exact sat_pure.mpr ⟨rfl, rfl, h⟩
  | cons line lines ih =>
    rw [writeLines, memory_append]
    apply (write_ready h hM _ (hne line List.mem_cons_self) (hlt line List.mem_cons_self)).bind
    intro ok t hspec
    rw [Log.add, sat_unless]
    cases hspec.1 with
    | refused hbig =>
      rw [if_neg (Nat.not_lt.mpr hbig)]
      exact ⟨fun _ => ⟨rfl, rfl, h⟩, by simp⟩
    | written hsmall _ _ _ ht =>
      rw [if_pos hsmall]
      refine ⟨by simp, fun _ => ?_⟩
      let l' : Log := { l with lines := afterWrite l.capacity l.lines line }
      exact ih (l := l') hM ht (fun q hq => hne q (List.mem_cons_of_mem _ hq))
        (fun q hq => hlt q (List.mem_cons_of_mem _ hq))

/-- What holds of the lines of a log and of those it is given holds of those it keeps. -/
theorem Log.add_forall {p : Text → Prop} (hl : ∀ line ∈ l.lines, p line)
    (hlines : ∀ line ∈ lines, p line) : ∀ line ∈ (l.add lines).2.lines, p line := by
  induction lines generalizing l with
  | nil => exact hl
  | cons line lines ih =>
    rw [Log.add]
    split_ifs
    · apply ih _ (fun q hq => hlines q (List.mem_cons_of_mem _ hq))
      exact afterWrite_forall _ hl (hlines line List.mem_cons_self)
    · exact hl

theorem Command.append_add (strerror : Option ℕ → Text) (hM : 10 ≤ l.capacity)
    (h : Ready l.capacity s l.lines)
    (hl : ∀ line ∈ l.lines, line ≠ []) (hstring : ∀ line ∈ l.lines, line.length ≤ stringMaxSize)
    {c : Command} (hstdin : c.stdin.length < 2^63)
    (hne : ∀ line ∈ getLines c.stdin, line ≠ [])
    (hstrings : ∀ line ∈ getLines c.stdin, line.length ≤ stringMaxSize) (behind : ℕ → Buffer) :
    ∃ c' f, c.append strerror behind s = .returned (l.add (getLines c.stdin)).1 c' (some f) ∧
      c'.stdout = c.stdout ∧ f.Prints stringMaxSize (l.add (getLines c.stdin)).2 := by
  obtain ⟨ok, t, hrun, hok, hcapacity, ht⟩ := writeLines_add hM h hne
    (fun line hline => (getLines_length hline).trans_lt hstdin) behind
  -- also after a line that was refused, the file holds the log
  have hkeeps : t.file.Prints stringMaxSize (l.add (getLines c.stdin)).2 := by
    refine ⟨⟨by rw [hcapacity]; exact hM, ?_⟩, Log.add_forall hstring hstrings⟩
    rw [hcapacity]
    exact ht.wellFormed (Log.add_forall hl hne)
  rw [Command.append, hrun, ← hok]
  cases ok with
  | true => exact ⟨c, t.file, rfl, rfl, hkeeps⟩
  | false => exact ⟨_, t.file, rfl, rfl, hkeeps⟩

/-- `Command::Read` on a file that holds a log. -/
theorem File.Prints.read (h : f.Prints stringMaxSize l) (c : Command) (junk : Ringfile)
    (hturns : 2^63 ≤ turns) :
    c.read strerror stringMaxSize junk (some f) allDone turns =
      .returned true { c with stdout := c.stdout ++ printed l.lines } (some f) := by
  have hb := h.wellFormed.bound
  have hfits := h.wellFormed.layout.fits
  -- a file of less than 2^63 bytes holds fewer lines than that
  have hlen := length_le_used (L := l.lines) (by omega)
  obtain ⟨s, hs, hf, hserves⟩ := h.wellFormed.open_serves junk
  have hreadable : ∀ A r B, l.lines = A ++ r :: B →
      Readable l.capacity ((s.self.readOffset+used A)%l.capacity) r := by
    intro A r B hsplit
    exact Or.inl (h.wellFormed.nonempty r (by rw [hsplit]; simp))
  obtain ⟨v, t, hrun, hv, hl⟩ := readLoop_spec h.strings h.capacity hserves.unread hserves.ideal
    hreadable turns (show l.lines.length < turns by omega)
  subst hv
  rw [Command.read, hs]
  dsimp only
  rw [hrun]
  dsimp only
  rw [if_pos rfl, hl.file, hf]

/-- `Command::Stat` on such a file: what is used and what is free. -/
theorem File.Keeps.stat (h : f.Keeps l) (c : Command) (junk : Ringfile) :
    c.stat strerror junk (some f) allDone = .returned true
      { c with
        stdout := c.stdout ++
          statReport c.path l.capacity (used l.lines) (l.capacity-used l.lines) }
      (some f) := by
  obtain ⟨s, hs, hf, hserves⟩ := h.wellFormed.open_serves junk
  have hu := hserves.unread.usable
  have hl : Layout l.capacity s.file l.lines := by
    rw [hf]
    exact h.wellFormed.layout
  have hreport : Sat (do return (← bytesMax, ← bytesUsed, ← bytesAvailable) : Op (ℕ × ℕ × ℕ)) s
      (fun v t => v = (l.capacity, used l.lines, l.capacity-used l.lines) ∧ t = s) := by
    rw [sat_bind, sat_bytesMax hu, sat_bind, sat_bytesUsed hu hl, sat_bind,
      sat_bytesAvailable hu hl, sat_pure]
    exact ⟨rfl, rfl⟩
  obtain ⟨v, t, hrun, rfl, rfl⟩ := hreport
  rw [Command.stat, hs]
  dsimp only
  rw [hrun]
  dsimp only
  rw [hf]

/-- The command line a turn of the loop of `Parse` leaves. -/
def Parsing.command : Parsing → CommandLine
  | .goesOn c => c
  | .returns _ c => c

/-- The two streams, which `Parse` has nothing to do with. -/
def CommandLine.streams (c : CommandLine) : Text × Text := (c.stdin, c.stdout)

theorem parseOption_streams (o : Delivered) : (c.parseOption o).command.streams = c.streams := by
  cases o with
  | help => rfl
  | verbose => rfl
  | invalid => rfl
  | stat | append =>
    rw [CommandLine.parseOption, CommandLine.setMode]
    split_ifs <;> rfl
  | size optarg =>
    rw [CommandLine.parseOption, CommandLine.setSize]
    dsimp only
    split_ifs
    · rfl
    · cases unitFactor (strtol optarg).units <;> rfl

theorem parseOptions_streams (options : List Delivered) :
    (c.parseOptions options).command.streams = c.streams := by
  induction options generalizing c with
  | nil => rfl
  | cons o options ih =>
    have hstep := parseOption_streams (c := c) o
    rw [CommandLine.parseOptions]
    cases hc : c.parseOption o with
    | goesOn c' =>
      rw [hc] at hstep
      exact ih.trans hstep
    | returns ok c' =>
      rw [hc] at hstep
      exact hstep

theorem parseOperands_streams (operands : List Text) :
    (c.parseOperands operands).2.streams = c.streams := by
  unfold CommandLine.parseOperands
  cases operands with
  | nil =>
    dsimp only
    split_ifs <;> rfl
  | cons path rest =>
    cases rest <;>
    · dsimp only
      split_ifs <;> rfl

theorem parse_streams (program : Text) (options : List Delivered) (operands : List Text) :
    (c.parse program options operands).2.streams = c.streams := by
  have hloop := parseOptions_streams (c := { c with program := program }) options
  unfold CommandLine.parse
  split
  · next ok c' hc =>
    rw [hc] at hloop
    exact hloop
  · next c' hc =>
    rw [hc] at hloop
    exact (parseOperands_streams operands).trans hloop

/-- The exit status is the one of `CommandLine.main`. -/
theorem Invocation.main_exit (disk : Text → Option File) (v : Invocation) :
    (v.main strerror stringMaxSize turns disk).1.1 =
      (CommandLine.construct v.stdin [] []).main strerror stringMaxSize v.program v.options
        v.operands v.junk disk allDone v.behind turns := by
  unfold Invocation.main CommandLine.main Invocation.parsed
  dsimp only
  split_ifs
  · rfl
  · cases CommandLine.dispatch strerror stringMaxSize _ v.junk disk allDone v.behind turns with
    | none => rfl
    | some finished => cases finished <;> rfl

/-- A path that named a file still names it as it was. -/
theorem outcome_same {disk : Text → Option File} {file : Option File} (hdisk : disk c.path = file)
    (ok : Bool) (c' : Command) :
    c.outcome disk (some (.returned ok c' file)) = ((statusOf ok, c'.stdout), disk) := by
  rw [CommandLine.outcome, ← hdisk, Function.update_eq_self]

/-- One command on related stores. -/
theorem CommandLine.dispatch_tell {disk : Text → Option File} {logs : Text → Option Log}
    (h : Stores stringMaxSize disk logs) (hturns : 2^63 ≤ turns) (hstdin : c.stdin.length < 2^63)
    (hne : ∀ line ∈ getLines c.stdin, line ≠ [])
    (hstrings : ∀ line ∈ getLines c.stdin, line.length ≤ stringMaxSize)
    (hsize : c.size = -1 ∨ (34 ≤ c.size ∧ c.size < 2^63)) (junk : Ringfile) (behind : ℕ → Buffer) :
    (c.outcome disk (c.dispatch strerror stringMaxSize junk disk allDone behind turns)).1 =
        (c.tell logs).1 ∧
      Stores stringMaxSize
        (c.outcome disk (c.dispatch strerror stringMaxSize junk disk allDone behind turns)).2
        (c.tell logs).2 := by
  have hpath := h c.path
  rw [CommandLine.dispatch, CommandLine.tell]
  generalize hfile : disk c.path = file at hpath
  generalize logs c.path = log at hpath
  -- both stores know the path, or neither does
  cases hpath with
  | none =>
    cases hmode : c.mode with
    | unspecified => exact ⟨rfl, h⟩
    | read =>
      have hread : c.toCommand.read strerror stringMaxSize junk none allDone turns =
          .returned false (c.toCommand.complain (text ": " ++ strerror (some eNoEnt))) none := rfl
      dsimp only
      rw [hread, outcome_same hfile]
      exact ⟨rfl, h⟩
    | stat =>
      have hstat : c.toCommand.stat strerror junk none allDone =
          .returned false (c.toCommand.complain (text ": " ++ strerror (some eNoEnt))) none := rfl
      dsimp only
      rw [hstat, outcome_same hfile]
      exact ⟨rfl, h⟩
    | append =>
      dsimp only
      split_ifs with hdefault
      · -- without a size nothing is created
        have hwrite : c.toCommand.write strerror junk none allDone behind = .returned false
            (c.toCommand.complain (text ": does not exist and --size was not specified")) none := by
          have hopen : openFile junk.construct none .append allDone = .failed
              { junk.construct with fd := none, error := some eNoEnt } none (later allDone 1) := rfl
          rw [Command.write, hopen]
          dsimp only
          rw [if_neg (fun herror => herror rfl), if_pos hdefault]
        rw [hwrite, outcome_same hfile]
        exact ⟨rfl, h⟩
      · -- a new ring, of the size given
        obtain ⟨hmin, hmax⟩ := hsize.resolve_left hdefault
        let l : Log := ⟨c.size.toNat-headerSize, []⟩
        have hcapacity : c.size = l.capacity+24 := by
          dsimp only [l, headerSize]
          omega
        have hM : 10 ≤ l.capacity := by omega
        obtain ⟨s, hs, hwrite⟩ := write_starts strerror hM (by omega) (.inl ⟨rfl, hcapacity⟩) junk
          behind
        obtain ⟨c', g, happend, hout, hg⟩ := Command.append_add strerror hM
          hs.ready (by simp [l]) (by simp [l]) hstdin hne hstrings behind
        rw [hwrite, happend]
        exact ⟨by rw [CommandLine.outcome, hout], rel_update h (.some hg)⟩
  | @some f l hkeeps =>
    cases hmode : c.mode with
    | unspecified => exact ⟨rfl, h⟩
    | read =>
      dsimp only
      rw [hkeeps.read c.toCommand junk hturns, outcome_same hfile]
      exact ⟨rfl, h⟩
    | stat =>
      dsimp only
      rw [hkeeps.stat c.toCommand junk, outcome_same hfile]
      exact ⟨rfl, h⟩
    | append =>
      obtain ⟨s, hs, hf, hready⟩ := hkeeps.wellFormed.open_ready junk
      have hwrite : c.toCommand.write strerror junk (some f) allDone behind =
          c.toCommand.append strerror behind s := by
        rw [Command.write, hs]
      obtain ⟨c', g, happend, hout, hg⟩ := Command.append_add strerror
        hkeeps.capacity hready hkeeps.wellFormed.nonempty hkeeps.strings hstdin hne hstrings behind
      dsimp only
      rw [hwrite, happend]
      exact ⟨by rw [CommandLine.outcome, hout], rel_update h (.some hg)⟩

theorem main_simulates (hturns : 2^63 ≤ turns) :
    Simulates (Stores stringMaxSize) (fun _ => Invocation.Valid stringMaxSize)
      (Invocation.main strerror stringMaxSize turns) Invocation.tell := by
  intro disk logs v h hv
  have hstreams := parse_streams (c := CommandLine.construct v.stdin [] []) v.program v.options
    v.operands
  have hstdin : v.parsed.2.stdin = v.stdin := congrArg Prod.fst hstreams
  have hlen := hv.stdin_lt
  have hne := hv.nonblank
  have hstrings := hv.strings
  -- what is read from the input does not depend on the options
  rw [← hstdin] at hlen hne hstrings
  unfold Invocation.main Invocation.tell
  dsimp only
  split_ifs
  · exact ⟨rfl, h⟩
  · exact CommandLine.dispatch_tell h hturns hlen hne hstrings hv.size v.junk v.behind

end ToolHistories

deriving instance DecidableEq for Exit

/-- Two lines are appended to a new ring, then a third one, for which the first has to go. The ring
is dumped and looked at; one that does not exist cannot be dumped. -/
def session : List Invocation :=
  let start (options : List Delivered) (operand stdin : Text) : Invocation :=
    ⟨text "ringfile", options, [operand], stdin, blank, fun _ => uninitialized⟩
  [start [.size (text "35"), .append] (text "a") (text "one\ntwo\n"),
    start [.append] (text "a") (text "three\n"), start [] (text "a") [],
    start [.stat] (text "a") [], start [] (text "b") []]

end CircularLog
