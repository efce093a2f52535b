import MEmu.GdbPackets

/-!
# The grammar of the packets

The table of commands as a grammar: which payloads there are, the command of each and its fields.
The parser finds the command and its fields, but for three kinds of payload.  The type of the empty
payload does not last, the search for the parameter of `c` takes the command letter with it, and a
payload is read up to its first NUL.
-/

namespace MEmu

open Regex (Expr Matches matchesWhole)
open Regex.Expr (lit)

/-! ## The grammar -/

/-- The commands whose fields each follow a character. -/
def fieldCommands : List (PacketType × List Char) :=
  [(.cmdRegWriteAll, ['G']), (.cmdRegReadIndex, ['p']), (.cmdMemRead, ['m', ',']),
    (.cmdMemWrite, ['M', ',', ':']), (.cmdInsertBreakpoint, ['Z', ',', ',']),
    (.cmdRemoveBreakpoint, ['z', ',', ','])]

/-- A payload, its command and its fields. -/
inductive Command : List Byte → PacketType → List (List Byte) → Prop where
  | empty : Command [] .emptyPacket []
  | haltReason : Command [ch '?'] .cmdQueryHaltReason []
  | regReadAll : Command [ch 'g'] .cmdRegReadAll []
  | continueHere : Command [ch 'c'] .cmdContinue []
  | continueAt {f : List Byte} (hf : IsHexField f) : Command (ch 'c' :: f) .cmdContinue [f]
  | fields {type : PacketType} {seps : List Char} {fs : List (List Byte)}
      (hrow : (type, seps) ∈ fieldCommands) (hlen : fs.length = seps.length)
      (hfs : ∀ f ∈ fs, IsHexField f) : Command (fieldsText seps fs) type fs

/-- A feature of `qSupported`. -/
inductive IsFeature : List Byte → Prop where
  | intro {name plus semi : List Byte} (hne : name ≠ [])
      (hname : ∀ c ∈ name, isFeatureChar c = true) (hplus : plus = [ch '+'] ∨ plus = [])
      (hsemi : semi = [ch ';'] ∨ semi = []) : IsFeature (name ++ (plus ++ semi))

/-- A `qSupported` packet. -/
def IsQSupported (data : List Byte) : Prop :=
  ∃ features : List (List Byte), features ≠ [] ∧ (∀ f ∈ features, IsFeature f) ∧
    data = str ['q', 'S', 'u', 'p', 'p', 'o', 'r', 't', 'e', 'd', ':'] ++ features.flatten

/-- A payload that the table is to recognise. -/
def Known (data : List Byte) : Prop :=
  (data ≠ [] ∧ ∃ type fs, Command data type fs) ∨ IsQSupported data

/-- The parser makes of a payload what the grammar says. -/
structure ParsesRight (data : List Byte) : Prop where
  command : ∀ type fs, Command data type fs →
    (parsePacket data).packetType = type ∧ (parsePacket data).paramList = fs
  unknown : (¬∃ type fs, Command data type fs) → ¬IsQSupported data →
    (parsePacket data).packetType = .cmdUnknown

variable {data f w : List Byte} {type : PacketType} {fs : List (List Byte)}

/-! ## What the rows match -/

theorem matches_feature : Matches
    (Regex.Expr.seqs [.plus (.char isFeatureChar), .opt (lit (ch '+')), .opt (lit (ch ';'))])
    IsFeature := by
  refine (Regex.matches_plus_char.seq ((Regex.matches_lit _).opt.seq
    ((Regex.matches_lit _).opt.seq Regex.matches_eps))).congr fun h => ?_
  constructor
  · rintro ⟨name, _, ⟨hne, hname⟩, ⟨plus, _, hplus, ⟨semi, _, hsemi, rfl, rfl⟩, rfl⟩, rfl⟩
    rw [List.append_nil]
    exact .intro hne hname hplus hsemi
  · rintro ⟨hne, hname, hplus, hsemi⟩
    refine ⟨_, _, ⟨hne, hname⟩, ⟨_, _, hplus, ⟨_, _, hsemi, rfl, ?_⟩, rfl⟩, rfl⟩
    exact (List.append_nil _).symm

theorem IsFeature.ne_nil (h : IsFeature f) : f ≠ [] := by
  cases h with
  | intro hne hname hplus hsemi => exact fun hnil => hne (List.append_eq_nil_iff.mp hnil).1

theorem matchesWhole_qSupported :
    matchesWhole PacketRegex.cmdQSupported.whole w = true ↔ IsQSupported w := by
  have hfeatures := (matches_feature.plus fun _ => IsFeature.ne_nil).seq Regex.matches_eps
  refine (Regex.matches_lits _ [_] hfeatures).whole.trans ?_
  constructor
  · rintro ⟨_, ⟨_, _, ⟨features, hne, hall, rfl⟩, rfl, rfl⟩, rfl⟩
    rw [List.append_nil]
    exact ⟨features, hne, hall, rfl⟩
  · rintro ⟨features, hne, hall, rfl⟩
    exact ⟨_, ⟨_, _, ⟨features, hne, hall, rfl⟩, rfl, (List.append_nil _).symm⟩, rfl⟩

theorem matchesWhole_continue : matchesWhole PacketRegex.cmdContinue.whole w = true ↔
    w = [ch 'c'] ∨ ∃ f, IsHexField f ∧ w = ch 'c' :: f := by
  rw [Regex.matchesWhole_iff]
  refine Regex.mem_rests_alt.trans ?_
  rw [← Regex.matchesWhole_iff, matchesWhole_hexFields, Regex.mem_rests_lit, or_comm]
  refine or_congr_right ?_
  constructor
  · rintro ⟨fs, hlen, hfs, rfl⟩
    obtain ⟨f, rfl⟩ := List.length_eq_one_iff.mp hlen
    refine ⟨f, hfs f List.mem_cons_self, ?_⟩
    simp [fieldsText]
  · rintro ⟨f, hf, rfl⟩
    refine ⟨[f], rfl, List.forall_mem_singleton.mpr hf, ?_⟩
    simp [fieldsText]

/-- The row of a command with fields. -/
def fieldRow (type : PacketType) (seps : List Char) : PacketRegex :=
  ⟨type, hexFields seps, some hexField⟩

theorem fieldRow_mem {seps : List Char} (h : (type, seps) ∈ fieldCommands) :
    fieldRow type seps ∈ packetTypeRegexStr ∧
      seps.all (fun c => !isHexDigit (ch c)) = true := by
  simp only [fieldCommands, List.mem_cons, List.not_mem_nil, or_false, Prod.mk.injEq] at h
  obtain ⟨rfl, rfl⟩ | ⟨rfl, rfl⟩ | ⟨rfl, rfl⟩ | ⟨rfl, rfl⟩ | ⟨rfl, rfl⟩ | ⟨rfl, rfl⟩ := h <;>
    refine ⟨?_, by decide⟩ <;>
    simp [packetTypeRegexStr, fieldRow, PacketRegex.cmdRegWriteAll, PacketRegex.cmdRegReadIndex,
      PacketRegex.cmdMemRead, PacketRegex.cmdMemWrite, PacketRegex.cmdInsertBreakpoint,
      PacketRegex.cmdRemoveBreakpoint]

/-- The rows match what the table is to recognise. -/
theorem matches_row_iff :
    (∃ r ∈ packetTypeRegexStr, matchesWhole r.whole w = true) ↔ Known w := by
  constructor
  · rintro ⟨r, hr, hm⟩
    have hne : w ≠ [] := by
      rintro rfl
      cases head_of_row hr hm
    have hfields (type : PacketType) {seps : List Char} (hrow : (type, seps) ∈ fieldCommands)
        (hm : matchesWhole (hexFields seps) w = true) : Known w := by
      obtain ⟨fs, hlen, hfs, rfl⟩ := (matchesWhole_hexFields seps).mp hm
      exact .inl ⟨hne, type, fs, .fields hrow hlen hfs⟩
    simp only [packetTypeRegexStr, List.mem_cons, List.not_mem_nil, or_false] at hr
    rcases hr with rfl | rfl | rfl | rfl | rfl | rfl | rfl | rfl | rfl | rfl
    · exact hfields .cmdMemRead (by decide) hm
    · exact hfields .cmdMemWrite (by decide) hm
    · exact hfields .cmdRegReadIndex (by decide) hm
    · obtain rfl := (Regex.matches_lit _).whole.mp hm
      exact .inl ⟨hne, _, _, .regReadAll⟩
    · exact hfields .cmdRegWriteAll (by decide) hm
    · obtain rfl := (Regex.matches_lit _).whole.mp hm
      exact .inl ⟨hne, _, _, .haltReason⟩
    · exact hfields .cmdInsertBreakpoint (by decide) hm
    · exact hfields .cmdRemoveBreakpoint (by decide) hm
    · rcases matchesWhole_continue.mp hm with rfl | ⟨f, hf, rfl⟩
      · exact .inl ⟨hne, _, _, .continueHere⟩
      · exact .inl ⟨hne, _, _, .continueAt hf⟩
    · exact .inr (matchesWhole_qSupported.mp hm)
  · rintro (⟨hne, type, fs, h⟩ | h)
    · cases h with
      | empty => exact absurd rfl hne
      | haltReason =>
          exact ⟨.cmdQueryHaltReason, by simp [packetTypeRegexStr],
            (Regex.matches_lit _).whole.mpr rfl⟩
      | regReadAll =>
          exact ⟨.cmdRegReadAll, by simp [packetTypeRegexStr], (Regex.matches_lit _).whole.mpr rfl⟩
      | continueHere =>
          exact ⟨.cmdContinue, by simp [packetTypeRegexStr], matchesWhole_continue.mpr (.inl rfl)⟩
      | continueAt hf =>
          exact ⟨.cmdContinue, by simp [packetTypeRegexStr],
            matchesWhole_continue.mpr (.inr ⟨_, hf, rfl⟩)⟩
      | fields hrow hlen hfs =>
          exact ⟨fieldRow _ _, (fieldRow_mem hrow).1,
            (matchesWhole_hexFields _).mpr ⟨_, hlen, hfs, rfl⟩⟩
    · exact ⟨.cmdQSupported, by simp [packetTypeRegexStr], matchesWhole_qSupported.mpr h⟩

/-- A packet is unknown if the table does not recognise the text before its first NUL. -/
theorem packetType_unknown_iff :
    (parsePacket data).packetType = .cmdUnknown ↔ ¬Known (cString data) := by
  rw [← matches_row_iff]
  constructor
  · rintro h ⟨r, hr, hm⟩
    have hrows : ∀ r ∈ packetTypeRegexStr, PacketType.cmdUnknown ≠ r.packetType := by decide
    exact hrows r hr (h.symm.trans (parsePacket_of_row hr hm).1)
  · intro h
    rcases packetType_cases data with hu | ⟨r, hr, htype⟩
    · exact hu
    · exact absurd ⟨r, hr, (packetType_iff hr).mp htype⟩ h

/-! ## Text without NULs -/

theorem cString_eq_self (h : (0 : Byte) ∉ data) : cString data = data := by
  refine List.takeWhile_eq_self_iff.mpr fun c hc => ?_
  rw [bne_iff_ne]
  rintro rfl
  exact h hc

theorem IsHexField.zero_notMem (hf : IsHexField f) : (0 : Byte) ∉ f := by
  intro h
  cases hf.digits 0 h

theorem fieldsText_zero_notMem {seps : List Char} (hseps : ∀ c ∈ seps, ch c ≠ 0)
    (hfs : ∀ f ∈ fs, IsHexField f) : (0 : Byte) ∉ fieldsText seps fs := by
  induction seps generalizing fs with
  | nil =>
      intro h
      cases h
  | cons c seps ih =>
      obtain ⟨hc, hseps⟩ := List.forall_mem_cons.mp hseps
      cases fs with
      | nil =>
          intro h
          cases h
      | cons f fs =>
          obtain ⟨hf, hfs⟩ := List.forall_mem_cons.mp hfs
          simp only [fieldsText, List.cons_append, List.mem_cons, List.mem_append, not_or]
          exact ⟨hc.symm, hf.zero_notMem, ih hseps hfs⟩

theorem Command.zero_notMem (h : Command data type fs) : (0 : Byte) ∉ data := by
  cases h with
  | empty | haltReason | regReadAll | continueHere => decide
  | continueAt hf =>
      rw [List.mem_cons, not_or]
      exact ⟨by decide, hf.zero_notMem⟩
  | fields hrow hlen hfs =>
      refine fieldsText_zero_notMem (fun c hc => ?_) hfs
      have hrows : fieldCommands.all (fun row => row.2.all fun c => ch c != 0) = true := rfl
      exact bne_iff_ne.mp (List.all_eq_true.mp (List.all_eq_true.mp hrows _ hrow) c hc)

theorem IsFeature.zero_notMem (h : IsFeature f) : (0 : Byte) ∉ f := by
  cases h with
  | intro hne hname hplus hsemi =>
      have hzero : (0 : Byte) ∉ _ := fun h => by cases hname 0 h
      simp only [List.mem_append, not_or]
      refine ⟨hzero, ?_, ?_⟩
      · rcases hplus with rfl | rfl <;> decide
      · rcases hsemi with rfl | rfl <;> decide

theorem IsQSupported.zero_notMem (h : IsQSupported data) : (0 : Byte) ∉ data := by
  obtain ⟨features, -, hall, rfl⟩ := h
  rw [List.mem_append, not_or]
  refine ⟨by decide, ?_⟩
  rw [List.mem_flatten]
  rintro ⟨f, hf, hzero⟩
  exact (hall f hf).zero_notMem hzero

/-! ## Packets -/

/-- The search for the parameter of `c` finds the whole packet. -/
theorem parsePacket_continueAt (hf : IsHexField f) :
    (parsePacket (ch 'c' :: f)).paramList = [ch 'c' :: f] := by
  have hdata : cString (ch 'c' :: f) = ch 'c' :: f :=
    cString_eq_self (Command.continueAt hf).zero_notMem
  have hm : matchesWhole PacketRegex.cmdContinue.whole (cString (ch 'c' :: f)) = true := by
    rw [hdata]
    exact matchesWhole_continue.mpr (.inr ⟨f, hf, rfl⟩)
  rw [(parsePacket_of_row (r := .cmdContinue) (by simp [packetTypeRegexStr]) hm).2, hdata]
  have hrun : (Regex.rests hexField (f ++ [])).head? = some [] :=
    Regex.head_rests_plus_run hf.nonempty hf.digits fun _ h => absurd h (Option.not_mem_none _)
  have hany : isAnyChar (ch 'c') = true := by decide
  have hhead : (Regex.rests (.seq (.char isAnyChar) hexField) (ch 'c' :: f ++ [])).head?
      = some [] := by
    rw [List.cons_append, Regex.rests, Regex.rests, if_pos hany, List.flatMap_singleton]
    exact hrun
  have hsearch := Regex.search_of_head (List.cons_ne_nil _ _) hhead
  rw [List.append_nil] at hsearch
  have hadv : Regex.Advances (.seq (.char isAnyChar) hexField) := by
    intro w rest h
    obtain ⟨mid, hmid, hrest⟩ := Regex.mem_rests_seq.mp h
    obtain ⟨c, -, rfl⟩ := Regex.mem_rests_char.mp hmid
    exact Nat.lt_succ_of_lt (Regex.plus_char_advances _ _ hrest)
  exact (hadv.findAll_found hsearch).trans rfl

theorem Command.parsesRight (h : Command data type fs) (hne : data ≠ [])
    (hc : ¬∃ f, IsHexField f ∧ data = ch 'c' :: f) :
    (parsePacket data).packetType = type ∧ (parsePacket data).paramList = fs := by
  have hdata : cString data = data := cString_eq_self h.zero_notMem
  have hrow {r : PacketRegex} (hr : r ∈ packetTypeRegexStr)
      (hm : matchesWhole r.whole data = true) :
      (parsePacket data).packetType = r.packetType ∧
        (parsePacket data).paramList = r.params data := by
    rw [← hdata] at hm
    obtain ⟨htype, hparams⟩ := parsePacket_of_row hr hm
    rw [hdata] at hparams
    exact ⟨htype, hparams⟩
  cases h with
  | empty => exact absurd rfl hne
  | haltReason =>
      exact hrow (r := .cmdQueryHaltReason) (by simp [packetTypeRegexStr]) (by decide)
  | regReadAll => exact hrow (r := .cmdRegReadAll) (by simp [packetTypeRegexStr]) (by decide)
  | continueHere => exact hrow (r := .cmdContinue) (by simp [packetTypeRegexStr]) (by decide)
  | continueAt hf => exact absurd ⟨_, hf, rfl⟩ hc
  | fields hseps hlen hfs =>
      obtain ⟨hr, hdigit⟩ := fieldRow_mem hseps
      exact (hasFields_iff hr rfl rfl (not_hexDigit hdigit)).mp ⟨hlen, hfs, hdata⟩

/-- The parser is right but for the empty payload, for `c` with an address, and for a payload that
goes on after a NUL where the text before it is a packet. -/
theorem parsesRight_iff (data : List Byte) : ParsesRight data ↔
    data ≠ [] ∧ (¬∃ f, IsHexField f ∧ data = ch 'c' :: f) ∧
      ((0 : Byte) ∈ data → ¬Known (cString data)) := by
  constructor
  · intro h
    refine ⟨?_, ?_, ?_⟩
    · rintro rfl
      exact packetType_ne_emptyPacket [] (h.command _ _ .empty).1
    · rintro ⟨f, hf, rfl⟩
      have hparams := (h.command _ _ (.continueAt hf)).2
      rw [parsePacket_continueAt hf] at hparams
      have hlen := congrArg List.length (List.cons.inj hparams).1
      rw [List.length_cons] at hlen
      omega
    · intro hzero
      refine packetType_unknown_iff.mp (h.unknown ?_ ?_)
      · rintro ⟨type, fs, hcmd⟩
        exact hcmd.zero_notMem hzero
      · exact fun hq => hq.zero_notMem hzero
  · rintro ⟨hne, hc, hnul⟩
    refine ⟨fun type fs hcmd => hcmd.parsesRight hne hc, fun hcmd hq => ?_⟩
    refine packetType_unknown_iff.mpr ?_
    by_cases hzero : (0 : Byte) ∈ data
    · exact hnul hzero
    · rw [cString_eq_self hzero]
      rintro (⟨-, hknown⟩ | hknown)
      · exact hcmd hknown
      · exact hq hknown

/-- `c` and an address. -/
theorem continueAt_not_parsesRight : ¬ParsesRight (ch 'c' :: str ['8', '0']) := by
  have hf : IsHexField (str ['8', '0']) := ⟨by decide, by decide⟩
  intro h
  have hparams := (h.command _ _ (.continueAt hf)).2
  rw [parsePacket_continueAt hf] at hparams
  exact absurd hparams (by decide)

end MEmu
