import RemoteNode.Settings
import RemoteNode.Proofs.Text.Numbers

/-! Nodes named by a text. The last colon parts the host from the port, so that the host may have
colons of its own. Of the spellings of a port, with a plus sign and zeros in front, the written form
has the shortest. -/

namespace RemoteNode.Endpoint

open Text Decimal

variable {s : String} {e : Endpoint} {cs : List Char} {port : UInt16}

/-- The spellings of a port: one or more digits, with any number of zeros in front, after at most
one plus sign. -/
def SpellsPort (cs : List Char) (port : UInt16) : Prop :=
  ∃ ds, (cs = ds ∨ cs = '+' :: ds) ∧ ds ≠ [] ∧ (∀ c ∈ ds, c.isDigit) ∧
    Nat.ofDigitChars 10 ds 0 = port.toNat

/-- The spellings of a node: its host, the last colon of the text, and its port. -/
def Spells (s : String) (e : Endpoint) : Prop :=
  e.host ≠ "" ∧ ∃ port, s = e.host ++ ":" ++ port ∧ ':' ∉ port.toList ∧
    SpellsPort port.toList e.port

/-- A number is read as a port if a word of 16 bits holds it. -/
theorem word_eq_some_iff {n : Nat} :
    (if n < 65536 then some (UInt16.ofNat n) else none) = some port ↔ n = port.toNat := by
  by_cases small : n < 65536
  · rw [if_pos small, Option.some.injEq, ← UInt16.toNat_inj, UInt16.toNat_ofNat']
    have same : n % 2 ^ 16 = n := Nat.mod_eq_of_lt small
    rw [same]
  · have bound : port.toNat < 65536 := port.toNat_lt
    rw [if_neg small]
    exact iff_of_false nofun (by omega)

theorem port?_eq_some_iff : port? cs = some port ↔ SpellsPort cs port := by
  have read (ds : List Char) : ((natural? ds).bind fun n =>
      if n < 65536 then some (UInt16.ofNat n) else none) = some port ↔
      ds ≠ [] ∧ (∀ c ∈ ds, c.isDigit) ∧ Nat.ofDigitChars 10 ds 0 = port.toNat := by
    simp only [Option.bind_eq_some_iff, word_eq_some_iff, exists_eq_right, natural?_eq_some_iff]
  unfold port?
  split
  · rename_i rest
    rw [read, SpellsPort]
    constructor
    · exact fun spelled => ⟨rest, .inr rfl, spelled⟩
    · rintro ⟨ds, rfl | same, spelled⟩
      · exact absurd (spelled.2.1 '+' List.mem_cons_self) (by decide)
      · exact (List.cons.inj same).2 ▸ spelled
  · rename_i plain
    rw [read, SpellsPort]
    constructor
    · exact fun spelled => ⟨cs, .inl rfl, spelled⟩
    · rintro ⟨ds, rfl | same, spelled⟩
      · exact spelled
      · exact absurd same (plain ds)

/-- A node is read from its spellings. -/
theorem ofText?_eq_some_iff : ofText? s = some e ↔ Spells s e := by
  unfold ofText?
  constructor
  · intro read
    split at read
    · cases read
    rename_i host port parted
    split at read
    · cases read
    rename_i named
    obtain ⟨number, spelled, rfl⟩ := Option.map_eq_some_iff.mp read
    obtain ⟨whole, last⟩ := eq_of_cutLast parted
    refine ⟨?_, String.ofList port, ?_, ?_, ?_⟩
    · rintro empty
      rw [← String.toList_inj, String.toList_ofList] at empty
      exact named (List.isEmpty_iff.mpr empty)
    · rw [← String.toList_inj, whole]
      simp
    · rwa [String.toList_ofList]
    · rw [String.toList_ofList]
      exact port?_eq_some_iff.mp spelled
  · rintro ⟨named, port, rfl, last, spelled⟩
    have parted :
        cutLast ':' (e.host ++ ":" ++ port).toList = some (e.host.toList, port.toList) := by
      have whole : (e.host ++ ":" ++ port).toList = e.host.toList ++ ':' :: port.toList := by simp
      rw [whole, cutLast_append last]
    have given : e.host.toList.isEmpty = false := by
      rw [List.isEmpty_eq_false_iff, ne_eq, String.toList_eq_nil_iff]
      exact named
    simp only [parted, given, port?_eq_some_iff.mpr spelled, Option.map_some, String.ofList_toList]
    rfl

theorem ofText_eq_ok_iff : ofText s = .ok e ↔ Spells s e := by
  rw [← ofText?_eq_some_iff, ofText]
  cases ofText? s <;> simp

theorem ofText_eq_error_iff {error : Settings.Error} :
    ofText s = .error error ↔ error = .endpoint s ∧ ¬ ∃ e, Spells s e := by
  simp only [← ofText?_eq_some_iff, ofText]
  cases ofText? s <;> simp [eq_comm]

/-- The written form is a spelling of every node that has a host. -/
theorem spells_text_iff : Spells e.text e ↔ e.host ≠ "" := by
  have written : e.text = e.host ++ ":" ++ String.ofList (digits e.port.toNat) := by
    rw [← String.toList_inj, text, characters]
    simp
  have plain : ∀ c ∈ digits e.port.toNat, c.isDigit := fun c there => isDigit_of_mem_digits there
  refine ⟨fun spelled => spelled.1, fun named => ⟨named, _, written, ?_, ?_⟩⟩
  · rw [String.toList_ofList]
    exact fun there => absurd (plain ':' there) (by decide)
  · rw [String.toList_ofList]
    exact ⟨_, .inl rfl, Nat.toDigits_ne_nil, plain, ofDigitChars_digits⟩

/-- A node is read from its spellings and from nothing else, a text that is refused is named in the
error, and the written form of what was read is read as the same. -/
theorem ofText_exact : (∀ s e, ofText s = .ok e ↔ Spells s e) ∧
    (∀ s error, ofText s = .error error ↔ error = .endpoint s ∧ ¬ ∃ e, Spells s e) ∧
    (∀ e, ofText e.text = .ok e ↔ e.host ≠ "") ∧
    ∀ s, ((ofText s).bind fun e => ofText e.text) = ofText s := by
  refine ⟨fun _ _ => ofText_eq_ok_iff, fun _ _ => ofText_eq_error_iff, fun e => ?_, fun s => ?_⟩
  · rw [ofText_eq_ok_iff, spells_text_iff]
  · cases read : ofText s with
    | error error => rfl
    | ok e =>
      have spelled := ofText_eq_ok_iff.mp read
      rw [Except.bind, ofText_eq_ok_iff, spells_text_iff]
      exact spelled.1

example : ofText "::1:+080" = .ok ⟨"::1", 80⟩ := by cbv

end RemoteNode.Endpoint
