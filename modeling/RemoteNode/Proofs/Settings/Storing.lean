import RemoteNode.Settings
import RemoteNode.Proofs.Schema.Forms

/-! Settings that are stored and read again. Of a length of time a word of 64 bits keeps the
completed milliseconds. One below a millisecond is stored as zero, and settings with it are refused
when they are read again; of one that the word cannot hold only the low bits are stored. All other
settings come back as they were, to the millisecond. -/

namespace RemoteNode

namespace Duration

/-- The longest length of time that a word of milliseconds holds. -/
def longestStored : Duration := .ofMilliseconds (UInt64.size - 1)

/-- What may be read again of a length of time: one less than a millisecond away, or the longest
that can be stored where it is beyond that. -/
def KeptAs (d e : Duration) : Prop :=
  d.nanoseconds < e.nanoseconds + 1000000 ∧ e.nanoseconds < d.nanoseconds + 1000000 ∨
    longestStored.nanoseconds < d.nanoseconds ∧ e = longestStored

/-- What is read again of a length of time. -/
def stored (d : Duration) : Duration := .ofMilliseconds (UInt64.ofNat d.milliseconds).toNat

variable {d : Duration}

theorem nanoseconds_stored :
    d.stored.nanoseconds = d.milliseconds % UInt64.size * 1000000 := by
  rw [stored, ofMilliseconds, UInt64.toNat_ofNat']

/-- Zero is read where the low bits of the milliseconds are zero. -/
theorem isZero_stored_iff : d.stored.isZero ↔ d.milliseconds % UInt64.size = 0 := by
  rw [isZero, beq_iff_eq, nanoseconds_stored]
  omega

/-- What a word holds is kept. A longer length of time is kept only where the low bits of its
milliseconds happen to be those of the longest. -/
theorem keptAs_stored_iff : d.KeptAs d.stored ↔
    d.milliseconds < UInt64.size ∨ d.milliseconds % UInt64.size = UInt64.size - 1 := by
  have whole : d.milliseconds * 1000000 ≤ d.nanoseconds := Nat.div_mul_le_self ..
  have part : d.nanoseconds < d.milliseconds * 1000000 + 1000000 :=
    Nat.lt_div_mul_add (by decide)
  have longest : d.stored = longestStored ↔
      d.milliseconds % UInt64.size = UInt64.size - 1 := by
    rw [stored, longestStored, UInt64.toNat_ofNat', ofMilliseconds, ofMilliseconds, mk.injEq]
    exact Nat.mul_left_inj (by decide)
  rw [KeptAs, longest, nanoseconds_stored]
  obtain short | long := Nat.lt_or_ge d.milliseconds UInt64.size
  · rw [Nat.mod_eq_of_lt short]
    exact iff_of_true (.inl ⟨part, by omega⟩) (.inl short)
  · have low : d.milliseconds % UInt64.size < UInt64.size := Nat.mod_lt _ (by decide)
    have beyond : longestStored.nanoseconds < d.nanoseconds := by
      have room : longestStored.nanoseconds < UInt64.size * 1000000 := by decide
      omega
    constructor
    · rintro (⟨near, -⟩ | ⟨-, same⟩)
      · omega
      · exact .inr same
    · rintro (short | same)
      · omega
      · exact .inr ⟨beyond, same⟩

end Duration

namespace Settings

variable {s : Settings}

/-- Settings without a fault. -/
theorem fault?_eq_none_iff : s.fault? = none ↔
    Text.isBlankText s.endpoint.host = false ∧ s.endpoint.port ≠ 0 ∧ s.timeout.isZero = false ∧
      s.pullInterval.isZero = false := by
  fun_cases fault? s <;> simp_all

/-- What is written for settings is read, whether they have a fault or not. -/
theorem ofJsonBytes?_toJson :
    ofJsonBytes? s.toJson.toBytes =
      some ⟨s.endpoint, s.timeout.stored, s.pullInterval.stored⟩ := by
  have form : Stored.schema.Form s.store s.toJson := Stored.schema.form_toJson s.store
  rw [ofJsonBytes?, form.ofJsonBytes? (by decide +kernel)]
  rfl

/-- What becomes of settings that are stored and read again. -/
structure ReadAgain (s t : Settings) : Prop where
  /-- The node is the same. -/
  endpoint : t.endpoint = s.endpoint
  /-- Nothing is wrong with them, unless a length of time is read as zero. -/
  checked : t.fault? = none ↔
    s.timeout.milliseconds % UInt64.size ≠ 0 ∧ s.pullInterval.milliseconds % UInt64.size ≠ 0
  /-- The longest round trip is kept where a word holds its milliseconds. -/
  timeout : s.timeout.KeptAs t.timeout ↔ s.timeout.milliseconds < UInt64.size ∨
    s.timeout.milliseconds % UInt64.size = UInt64.size - 1
  /-- So is the time between two looks. -/
  pullInterval : s.pullInterval.KeptAs t.pullInterval ↔ s.pullInterval.milliseconds < UInt64.size ∨
    s.pullInterval.milliseconds % UInt64.size = UInt64.size - 1

/-- Settings with nothing wrong are read again after they were stored. -/
theorem readAgain_of_checked (checked : s.fault? = none) :
    ∃ t, ofJsonBytes? s.toJson.toBytes = some t ∧ s.ReadAgain t := by
  obtain ⟨named, port, -⟩ := fault?_eq_none_iff.mp checked
  refine ⟨_, ofJsonBytes?_toJson, rfl, ?_, Duration.keptAs_stored_iff, Duration.keptAs_stored_iff⟩
  rw [fault?_eq_none_iff, ← Bool.not_eq_true, ← Bool.not_eq_true, ← Bool.not_eq_true,
    Duration.isZero_stored_iff, Duration.isZero_stored_iff]
  exact ⟨fun h => h.2.2, fun h => ⟨Bool.not_eq_true _ ▸ named, port, h⟩⟩

/-- A millisecond and a half for an answer, and a look every five seconds. -/
def hasty : Settings := ⟨.standard, ⟨1500000⟩, .ofMilliseconds 5000⟩

theorem readAgain_hasty : hasty.fault? = none ∧
    ∃ t, ofJsonBytes? hasty.toJson.toBytes = some t ∧ hasty.ReadAgain t :=
  have checked : hasty.fault? = none := by decide +kernel
  ⟨checked, readAgain_of_checked checked⟩

/-- Half a millisecond for an answer, and a look every 585 million years. -/
def patient : Settings := ⟨.standard, ⟨500000⟩, .ofSeconds 18446744073709552 0⟩

/-- Nothing is wrong with these settings, and yet they have a fault when they are read again, and
look at the node three times in a second. -/
theorem exists_not_readAgain : ∃ s t : Settings, s.fault? = none ∧
    ofJsonBytes? s.toJson.toBytes = some t ∧ t.fault? = some .zeroTimeout ∧
    t.pullInterval = .ofMilliseconds 384 ∧ ¬ s.pullInterval.KeptAs t.pullInterval := by
  refine ⟨patient, _, by decide +kernel, ofJsonBytes?_toJson, by decide +kernel,
    by decide +kernel, ?_⟩
  rw [Duration.keptAs_stored_iff]
  decide +kernel

end Settings

end RemoteNode
