import MEmu.GdbRsp
import Mathlib.Data.List.Nodup

/-!
# What the parser makes of a packet

No two rows of the table match the same packet, since each begins with a character of its own.  So
a packet has the type of a row exactly where the row matches it, and a row of hexadecimal fields
finds these fields.
-/

namespace MEmu

open Regex (Expr rests matchesWhole matchesWhole_iff findAll)
open Regex.Expr (lit)

variable {data w rest : List Byte}

/-! ## Hexadecimal fields -/

/-- What `[0-9A-Fa-f]+` matches. -/
structure IsHexField (f : List Byte) : Prop where
  nonempty : f ≠ []
  digits : ∀ c ∈ f, isHexDigit c = true

/-- Fields, each after its character. -/
def fieldsText : List Char → List (List Byte) → List Byte
  | c :: seps, f :: fs => ch c :: f ++ fieldsText seps fs
  | _, _ => []

theorem mem_rests_hexField :
    rest ∈ rests hexField w ↔ ∃ f, IsHexField f ∧ w = f ++ rest := by
  rw [hexField, Regex.mem_rests_plus_char]
  constructor
  · rintro ⟨f, hne, hall, hw⟩
    exact ⟨f, ⟨hne, hall⟩, hw⟩
  · rintro ⟨f, ⟨hne, hall⟩, hw⟩
    exact ⟨f, hne, hall, hw⟩

theorem mem_rests_hexFields (seps : List Char) : rest ∈ rests (hexFields seps) w ↔
    ∃ fs, fs.length = seps.length ∧ (∀ f ∈ fs, IsHexField f) ∧ w = fieldsText seps fs ++ rest := by
  induction seps generalizing w with
  | nil =>
      have hnil : hexFields [] = .eps := rfl
      rw [hnil, Regex.mem_rests_eps]
      constructor
      · rintro rfl
        exact ⟨[], rfl, nofun, rfl⟩
      · rintro ⟨fs, hlen, -, hw⟩
        obtain rfl := List.eq_nil_of_length_eq_zero hlen
        exact hw
  | cons c seps ih =>
      have hcons : hexFields (c :: seps) = .seq (lit (ch c)) (.seq hexField (hexFields seps)) := rfl
      simp only [hcons, Regex.mem_rests_seq, Regex.mem_rests_lit, mem_rests_hexField, ih]
      constructor
      · rintro ⟨_, rfl, _, ⟨f, hf, rfl⟩, fs, hlen, hfs, rfl⟩
        refine ⟨f :: fs, congrArg (· + 1) hlen, List.forall_mem_cons.mpr ⟨hf, hfs⟩, ?_⟩
        simp [fieldsText]
      · rintro ⟨fs, hlen, hfs, rfl⟩
        obtain ⟨f, fs, rfl⟩ := List.exists_cons_of_length_eq_add_one hlen
        obtain ⟨hf, hfs⟩ := List.forall_mem_cons.mp hfs
        refine ⟨f ++ (fieldsText seps fs ++ rest), ?_, _, ⟨f, hf, rfl⟩, fs, ?_, hfs, rfl⟩
        · simp [fieldsText]
        · exact Nat.succ.inj hlen

/-- A row of fields matches its fields and nothing else. -/
theorem matchesWhole_hexFields (seps : List Char) : matchesWhole (hexFields seps) w = true ↔
    ∃ fs, fs.length = seps.length ∧ (∀ f ∈ fs, IsHexField f) ∧ w = fieldsText seps fs := by
  rw [matchesWhole_iff, mem_rests_hexFields]
  simp only [List.append_nil]

/-- The fields are found again, if what stands between them is no digit. -/
theorem findAll_fieldsText {seps : List Char} (hseps : ∀ c ∈ seps, isHexDigit (ch c) = false)
    {fs : List (List Byte)} (hlen : fs.length = seps.length) (hfs : ∀ f ∈ fs, IsHexField f) :
    findAll hexField (fieldsText seps fs) = fs := by
  induction seps generalizing fs with
  | nil =>
      obtain rfl := List.eq_nil_of_length_eq_zero hlen
      rfl
  | cons c seps ih =>
      obtain ⟨f, fs, rfl⟩ := List.exists_cons_of_length_eq_add_one hlen
      obtain ⟨hc, hseps⟩ := List.forall_mem_cons.mp hseps
      obtain ⟨hf, hfs⟩ := List.forall_mem_cons.mp hfs
      have hlen := Nat.succ.inj hlen
      have hhead : ∀ d ∈ (fieldsText seps fs).head?, isHexDigit d = false := by
        intro d hd
        cases seps with
        | nil => cases hd
        | cons s seps =>
            obtain ⟨g, fs, rfl⟩ := List.exists_cons_of_length_eq_add_one hlen
            obtain rfl := Option.some.inj hd
            exact hseps s List.mem_cons_self
      rw [fieldsText, List.cons_append, hexField, Regex.findAll_plus_skip hc,
        Regex.findAll_plus_run hf.nonempty hf.digits hhead, ← hexField, ih hseps hlen hfs]

/-! ## The rows of the table -/

/-- The character that the packets of a row begin with. -/
def PacketRegex.letter (r : PacketRegex) : Byte :=
  match r.packetType with
  | .cmdMemRead => ch 'm'
  | .cmdMemWrite => ch 'M'
  | .cmdRegReadIndex => ch 'p'
  | .cmdRegReadAll => ch 'g'
  | .cmdRegWriteAll => ch 'G'
  | .cmdQueryHaltReason => ch '?'
  | .cmdInsertBreakpoint => ch 'Z'
  | .cmdRemoveBreakpoint => ch 'z'
  | .cmdContinue => ch 'c'
  | _ => ch 'q'

theorem head_of_hexFields {c : Char} {seps : List Char}
    (h : matchesWhole (hexFields (c :: seps)) w = true) : w.head? = some (ch c) := by
  obtain ⟨fs, hlen, -, rfl⟩ := (matchesWhole_hexFields _).mp h
  obtain ⟨f, fs, rfl⟩ := List.exists_cons_of_length_eq_add_one hlen
  rfl

theorem head_of_lit {c : Byte} (h : matchesWhole (lit c) w = true) : w.head? = some c := by
  rw [matchesWhole_iff, Regex.mem_rests_lit] at h
  rw [h]
  rfl

/-- A packet that a row matches begins with the character of the row. -/
theorem head_of_row {r : PacketRegex} (hr : r ∈ packetTypeRegexStr)
    (h : matchesWhole r.whole w = true) : w.head? = some r.letter := by
  simp only [packetTypeRegexStr, List.mem_cons, List.not_mem_nil, or_false] at hr
  rcases hr with rfl | rfl | rfl | rfl | rfl | rfl | rfl | rfl | rfl | rfl
  · exact head_of_hexFields h
  · exact head_of_hexFields h
  · exact head_of_hexFields h
  · exact head_of_lit h
  · exact head_of_hexFields h
  · exact head_of_lit h
  · exact head_of_hexFields h
  · exact head_of_hexFields h
  · rw [matchesWhole_iff] at h
    rcases Regex.mem_rests_alt.mp h with h | h
    · exact head_of_hexFields (matchesWhole_iff.mpr h)
    · exact head_of_lit (matchesWhole_iff.mpr h)
  · rw [matchesWhole_iff] at h
    obtain ⟨_, hq, -⟩ := Regex.mem_rests_seq.mp h
    rw [Regex.mem_rests_lit.mp hq]
    rfl

theorem row_unique {r r' : PacketRegex} (hr : r ∈ packetTypeRegexStr)
    (hr' : r' ∈ packetTypeRegexStr) (h : r.letter = r'.letter) : r = r' := by
  have hnodup : (packetTypeRegexStr.map PacketRegex.letter).Nodup := by decide
  exact List.inj_on_of_nodup_map hnodup hr hr' h

theorem find_row {r : PacketRegex} (hr : r ∈ packetTypeRegexStr)
    (h : matchesWhole r.whole w = true) :
    (packetTypeRegexStr.find? fun p => matchesWhole p.whole w) = some r := by
  cases hf : packetTypeRegexStr.find? fun p => matchesWhole p.whole w with
  | none => exact absurd h (List.find?_eq_none.mp hf r hr)
  | some r' =>
      have hr' := List.mem_of_find?_eq_some hf
      have hm := List.find?_some hf
      have hhead := (head_of_row hr h).symm.trans (head_of_row hr' hm)
      rw [row_unique hr hr' (Option.some.inj hhead)]

/-! ## Packets -/

theorem parsePacket_of_row {r : PacketRegex} (hr : r ∈ packetTypeRegexStr)
    (h : matchesWhole r.whole (cString data) = true) :
    (parsePacket data).packetType = r.packetType ∧
      (parsePacket data).paramList = r.params (cString data) := by
  rw [parsePacket, find_row hr h]
  refine ⟨rfl, ?_⟩
  dsimp only
  split <;> rfl

/-- A packet has the type of a row if the row matches it, and only then. -/
theorem packetType_iff {r : PacketRegex} (hr : r ∈ packetTypeRegexStr) :
    (parsePacket data).packetType = r.packetType ↔ matchesWhole r.whole (cString data) = true := by
  constructor
  · intro h
    cases hf : packetTypeRegexStr.find? fun p => matchesWhole p.whole (cString data) with
    | none =>
        rw [parsePacket, hf] at h
        have hrows : ∀ r ∈ packetTypeRegexStr, PacketType.cmdUnknown ≠ r.packetType := by decide
        exact absurd h (hrows r hr)
    | some r' =>
        have hr' := List.mem_of_find?_eq_some hf
        have hm := List.find?_some hf
        rw [(parsePacket_of_row hr' hm).1] at h
        have hletter : r'.letter = r.letter := by rw [PacketRegex.letter, h, ← PacketRegex.letter]
        rwa [row_unique hr' hr hletter] at hm
  · intro h
    exact (parsePacket_of_row hr h).1

/-- A packet has the type of a row, or is unknown. -/
theorem packetType_cases (data : List Byte) : (parsePacket data).packetType = .cmdUnknown ∨
    ∃ r ∈ packetTypeRegexStr, (parsePacket data).packetType = r.packetType := by
  cases hf : packetTypeRegexStr.find? fun p => matchesWhole p.whole (cString data) with
  | none =>
      rw [parsePacket, hf]
      exact .inl rfl
  | some r =>
      have hr := List.mem_of_find?_eq_some hf
      have hm := List.find?_some hf
      exact .inr ⟨r, hr, (parsePacket_of_row hr hm).1⟩

/-- The packet is made of these fields, each after its character. -/
structure HasFields (seps : List Char) (fs : List (List Byte)) (data : List Byte) : Prop where
  length_eq : fs.length = seps.length
  fields : ∀ f ∈ fs, IsHexField f
  text : cString data = fieldsText seps fs

/-- The characters of a packet are none of its fields. -/
theorem not_hexDigit {seps : List Char} (h : seps.all (fun c => !isHexDigit (ch c)) = true) :
    ∀ c ∈ seps, isHexDigit (ch c) = false := by
  simpa using h

/-- A row of fields finds the fields of its packets. -/
theorem hasFields_iff {r : PacketRegex} {seps : List Char} {fs : List (List Byte)}
    (hr : r ∈ packetTypeRegexStr) (hwhole : r.whole = hexFields seps)
    (hparam : r.param = some hexField) (hseps : ∀ c ∈ seps, isHexDigit (ch c) = false) :
    HasFields seps fs data ↔
      (parsePacket data).packetType = r.packetType ∧ (parsePacket data).paramList = fs := by
  have hfound {fs : List (List Byte)} (h : HasFields seps fs data) :
      (parsePacket data).packetType = r.packetType ∧ (parsePacket data).paramList = fs := by
    have hm : matchesWhole r.whole (cString data) = true := by
      rw [hwhole]
      exact (matchesWhole_hexFields seps).mpr ⟨fs, h.length_eq, h.fields, h.text⟩
    obtain ⟨htype, hparams⟩ := parsePacket_of_row hr hm
    refine ⟨htype, ?_⟩
    rw [hparams, PacketRegex.params, hparam, h.text]
    exact findAll_fieldsText hseps h.length_eq h.fields
  refine ⟨hfound, ?_⟩
  rintro ⟨htype, rfl⟩
  have hm := (packetType_iff hr).mp htype
  rw [hwhole] at hm
  obtain ⟨fs, hlen, hfs, hw⟩ := (matchesWhole_hexFields seps).mp hm
  have h : HasFields seps fs data := ⟨hlen, hfs, hw⟩
  rw [(hfound h).2]
  exact h

/-- No packet is left with the type of the empty one. -/
theorem packetType_ne_emptyPacket (data : List Byte) :
    (parsePacket data).packetType ≠ .emptyPacket := by
  rcases packetType_cases data with hu | ⟨r, hr, htype⟩
  · rw [hu]
    exact nofun
  · have hrows : ∀ r ∈ packetTypeRegexStr, r.packetType ≠ .emptyPacket := by decide
    rw [htype]
    exact hrows r hr

/-! ## Packets that continue -/

/-- The packet that continues where the core is. -/
theorem parsePacket_continue : cString data = [ch 'c'] ↔
    (parsePacket data).packetType = .cmdContinue ∧ (parsePacket data).paramList = [] := by
  have hrow : PacketRegex.cmdContinue ∈ packetTypeRegexStr := by simp [packetTypeRegexStr]
  constructor
  · intro h
    have hm : matchesWhole PacketRegex.cmdContinue.whole (cString data) = true := by
      rw [h]
      decide
    obtain ⟨htype, hparams⟩ := parsePacket_of_row hrow hm
    refine ⟨htype, ?_⟩
    rw [hparams, h]
    rfl
  · rintro ⟨htype, hnil⟩
    have hm := (packetType_iff hrow).mp htype
    rw [(parsePacket_of_row hrow hm).2] at hnil
    rcases Regex.mem_rests_alt.mp (matchesWhole_iff.mp hm) with hm | hm
    · obtain ⟨fs, hlen, hfs, hw⟩ := (mem_rests_hexFields ['c']).mp hm
      obtain ⟨f, rfl⟩ := List.length_eq_one_iff.mp hlen
      rw [List.append_nil] at hw
      have hf : [] ∈ Regex.rests hexField (f ++ []) :=
        mem_rests_hexField.mpr ⟨f, hfs f List.mem_cons_self, rfl⟩
      have hc : [] ∈ Regex.rests (.seq (.char isAnyChar) hexField) (cString data) := by
        rw [hw, Regex.mem_rests_seq]
        exact ⟨f ++ [], Regex.mem_rests_char.mpr ⟨ch 'c', by decide, rfl⟩, hf⟩
      exact absurd hnil (Regex.findAll_ne_nil (by simp [hw, fieldsText]) hc)
    · exact Regex.mem_rests_lit.mp hm

/-! ## Packets that ask for one register -/

/-- `p` and digits. -/
def IsRegRead (data : List Byte) : Prop :=
  ∃ digits, IsHexField digits ∧ cString data = ch 'p' :: digits

theorem packetType_regReadIndex :
    (parsePacket data).packetType = .cmdRegReadIndex ↔ IsRegRead data := by
  have hrow : (parsePacket data).packetType = .cmdRegReadIndex ↔ _ :=
    packetType_iff (r := .cmdRegReadIndex) (by simp [packetTypeRegexStr])
  refine hrow.trans ((matchesWhole_hexFields ['p']).trans ?_)
  constructor
  · rintro ⟨fs, hlen, hfs, hw⟩
    obtain ⟨digits, rfl⟩ := List.length_eq_one_iff.mp hlen
    refine ⟨digits, hfs digits List.mem_cons_self, hw.trans ?_⟩
    simp [fieldsText]
  · rintro ⟨digits, hdigits, hw⟩
    refine ⟨[digits], rfl, fun f hf => ?_, hw.trans ?_⟩
    · rwa [List.mem_singleton.mp hf]
    · simp [fieldsText]

/-- The types that the switch of `Debug_GDBStub` has a case for. -/
def PacketType.hasCase : PacketType → Bool
  | .cmdQueryHaltReason | .cmdRegReadAll | .cmdRegWriteAll | .cmdQSupported | .cmdMemRead
  | .cmdMemWrite | .cmdInsertBreakpoint | .cmdRemoveBreakpoint | .cmdContinue | .emptyPacket
  | .cmdUnknown => true
  | _ => false

/-- The parser knows one type that has no case. -/
theorem hasCase_parsePacket : (parsePacket data).packetType.hasCase = false ↔ IsRegRead data := by
  rw [← packetType_regReadIndex]
  constructor
  · intro h
    rcases packetType_cases data with hu | ⟨r, hr, htype⟩
    · rw [hu] at h
      cases h
    · rw [htype] at h ⊢
      have hrows : ∀ r ∈ packetTypeRegexStr, r.packetType.hasCase = false →
          r.packetType = .cmdRegReadIndex := by decide
      exact hrows r hr h
  · intro h
    rw [h]
    rfl

end MEmu
