import RemoteNode.Url.Basic
import RemoteNode.Proofs.Json.Lexing
import Mathlib.Data.Bool.AllAny

/-! What stands in a host. No host contains a delimiter, but for the brackets around a sixteen-byte
address and the colons inside them; so a host is found again in front of a colon and a port, and
nothing else is found there. -/

namespace RemoteNode.Url

open Text

namespace Percent

/-- A byte that is neither a percent sign nor a digit is left where it is. -/
theorem mem_decode {bytes : List UInt8} {b : UInt8} (there : b ∈ bytes) (sign : b ≠ 0x25)
    (digit : Hex.value? (Char.ofNat b.toNat) = none) : b ∈ decode bytes := by
  fun_induction decode bytes with
  | case1 => cases there
  | case2 h l rest high low second first ih =>
    have later : b ∈ rest := by
      simp only [List.mem_cons] at there
      obtain rfl | rfl | rfl | later := there
      · exact absurd rfl sign
      · rw [first] at digit
        cases digit
      · rw [second] at digit
        cases digit
      · exact later
    exact List.mem_cons_of_mem _ (ih later)
  | case3 h l rest _ ih =>
    obtain rfl | later := List.mem_cons.mp there
    · exact absurd rfl sign
    · exact List.mem_cons_of_mem _ (ih later)
  | case4 c rest _ ih =>
    obtain rfl | later := List.mem_cons.mp there
    · exact List.mem_cons_self
    · exact List.mem_cons_of_mem _ (ih later)

end Percent

/-! ### Sixteen-byte addresses -/

namespace Address

variable {cs : List Char} {c : Char} {sep : Char}

/-- The characters of a sixteen-byte address. -/
def Spells (cs : List Char) : Prop := ∀ c ∈ cs, c = ':' ∨ c = '.' ∨ (Hex.value? c).isSome

theorem spells_append {ds : List Char} (left : Spells cs) (right : Spells ds) :
    Spells (cs ++ ds) := List.forall_mem_append.mpr ⟨left, right⟩

/-- What is made of parts and the separators between them. -/
theorem spells_of_splitAt (known : sep = ':' ∨ sep = '.')
    (each : ∀ p ∈ splitAt sep cs, Spells p) : Spells cs := by
  have joined : ∀ ps : List (List Char), (∀ p ∈ ps, Spells p) →
      Spells ([sep].intercalate ps) := by
    intro ps each
    induction ps with
    | nil => exact List.forall_mem_nil _
    | cons p ps ih =>
      obtain ⟨first, others⟩ := List.forall_mem_cons.mp each
      cases ps with
      | nil => simpa using first
      | cons q ps =>
        rw [List.intercalate_cons_cons]
        refine spells_append (spells_append first ?_) (ih others)
        intro c there
        obtain rfl := List.mem_singleton.mp there
        exact known.imp_right .inl
  have whole : [sep].intercalate (splitAt sep cs) = cs := List.intercalate_splitOn sep
  exact whole ▸ joined _ each

theorem spells_of_inBase {base n v : Nat} (read : inBase base n cs = some v) : Spells cs := by
  fun_induction inBase base n cs with
  | case1 => exact List.forall_mem_nil _
  | case2 n c cs d value small ih =>
    exact List.forall_mem_cons.mpr ⟨.inr (.inr (value ▸ rfl)), ih read⟩
  | case3 | case4 => cases read

theorem spells_of_onto? {n v : Nat} (read : Decimal.onto? n cs = some v) : Spells cs := by
  induction cs generalizing n with
  | nil => exact List.forall_mem_nil _
  | cons c cs ih =>
    obtain ⟨d, value, read⟩ := Option.bind_eq_some_iff.mp read
    refine List.forall_mem_cons.mpr ⟨.inr (.inr ?_), ih read⟩
    unfold Decimal.value? at value
    split at value
    · rename_i digit
      rw [Hex.value?, if_pos digit]
      rfl
    · cases value

theorem spells_of_strictPart? {v : Nat} (read : strictPart? cs = some v) : Spells cs := by
  have natural : ∃ n, Decimal.natural? cs = some n := by
    unfold strictPart? at read
    split at read
    · cases read
    · exact ⟨_, ‹_›⟩
    · cases read
  obtain ⟨n, natural⟩ := natural
  cases cs with
  | nil => exact List.forall_mem_nil _
  | cons c cs => exact spells_of_onto? natural

theorem exists_of_mapM {α β : Type} {f : α → Option β} {l : List α} {bs : List β}
    (read : l.mapM f = some bs) : ∀ a ∈ l, ∃ b, f a = some b := by
  induction l generalizing bs with
  | nil => exact List.forall_mem_nil _
  | cons a l ih =>
    simp only [List.mapM_cons, Option.bind_eq_bind, Option.bind_eq_some_iff] at read
    obtain ⟨b, first, bs, others, -⟩ := read
    exact List.forall_mem_cons.mpr ⟨⟨b, first⟩, ih others⟩

theorem spells_of_lastTwoGroups? {gs : List Nat} (read : lastTwoGroups? cs = some gs) :
    Spells cs := by
  have parts : ∃ ns, (splitAt '.' cs).mapM strictPart? = some ns := by
    unfold lastTwoGroups? at read
    split at read
    · exact ⟨_, ‹_›⟩
    · cases read
  obtain ⟨ns, parts⟩ := parts
  refine spells_of_splitAt (.inr rfl) fun p there => ?_
  obtain ⟨n, read⟩ := exists_of_mapM parts p there
  exact spells_of_strictPart? read

theorem spells_of_group? {n : Nat} (read : group? cs = some n) : Spells cs := by
  unfold group? at read
  split at read
  · cases read
  · exact spells_of_inBase read

theorem spells_of_groups? {mayEnd : Bool} {gs : List (List Char)} {ns : List Nat}
    (read : groups? mayEnd gs = some ns) : ∀ g ∈ gs, Spells g := by
  fun_induction groups? mayEnd gs generalizing ns with
  | case1 => exact List.forall_mem_nil _
  | case2 last _ => exact List.forall_mem_singleton.mpr (spells_of_lastTwoGroups? read)
  | case3 last _ =>
    obtain ⟨n, read, -⟩ := Option.map_eq_some_iff.mp read
    exact List.forall_mem_singleton.mpr (spells_of_group? read)
  | case4 g rest _ ih =>
    simp only [Option.bind_eq_bind, Option.bind_eq_some_iff] at read
    obtain ⟨n, first, ns, others, -⟩ := read
    exact List.forall_mem_cons.mpr ⟨spells_of_group? first, ih others⟩

theorem spells_of_side? {mayEnd : Bool} {ns : List Nat} (read : side? mayEnd cs = some ns) :
    Spells cs := by
  unfold side? at read
  split at read
  · rename_i empty
    rw [List.isEmpty_iff.mp empty]
    exact List.forall_mem_nil _
  · exact spells_of_splitAt (.inl rfl) (spells_of_groups? read)

/-- The gap is two colons. -/
theorem eq_of_splitGap {before after : List Char} (gap : splitGap cs = some (before, after)) :
    cs = before ++ [':', ':'] ++ after := by
  fun_induction splitGap cs generalizing before with
  | case1 =>
    cases gap
    rfl
  | case2 c rest _ ih =>
    obtain ⟨⟨front, back⟩, gap, same⟩ := Option.map_eq_some_iff.mp gap
    cases same
    rw [ih gap]
    rfl
  | case3 => cases gap

/-- A sixteen-byte address has digits, colons and dots only. -/
theorem spells_of_eightGroups? {ns : List Nat} (read : eightGroups? cs = some ns) : Spells cs := by
  unfold eightGroups? at read
  split at read
  · rename_i before after gap
    simp only [Option.bind_eq_bind, Option.bind_eq_some_iff] at read
    obtain ⟨left, first, right, second, -⟩ := read
    rw [eq_of_splitGap gap]
    refine spells_append (spells_append (spells_of_side? first) ?_) (spells_of_side? second)
    exact fun c there => .inl (by simpa using there)
  · simp only [Option.bind_eq_bind, Option.bind_eq_some_iff] at read
    obtain ⟨ns, read, -⟩ := read
    exact spells_of_side? read

end Address

/-! ### Delimiters -/

namespace Host

variable {naming : Naming} {cs : List Char} {c : Char} {h : Host}

/-- The delimiters that end a host wherever they stand, or are dropped from it. -/
def breaks : List Char := ['\t', '\n', '\r', '#', '/', '?', '@', '\\']

theorem isDigit_of_mem_delimiters (listed : c ∈ delimiters) : c.isDigit = false := by
  have each : ∀ c ∈ delimiters, c.isDigit = false := List.all_iff_forall_prop.mp (by decide)
  exact each c listed

theorem mem_delimiters_of_mem_breaks (listed : c ∈ breaks) : c ∈ delimiters := by
  have each : ∀ c ∈ breaks, c ∈ delimiters := List.all_iff_forall_prop.mp (by decide)
  exact each c listed

/-- A delimiter is still there when a name is decoded. -/
theorem mem_decode_of_mem_delimiters (listed : c ∈ delimiters) (there : c ∈ cs) :
    UInt8.ofNat c.toNat ∈ Percent.decode (Utf8.encode cs) := by
  have plain : ∀ c ∈ delimiters, c.toNat < 128 ∧ UInt8.ofNat c.toNat ≠ 0x25 ∧
      Hex.value? (Char.ofNat (UInt8.ofNat c.toNat).toNat) = none :=
    List.all_iff_forall_prop.mp (by decide)
  obtain ⟨ascii, sign, digit⟩ := plain c listed
  refine Percent.mem_decode (List.mem_flatMap.mpr ⟨c, there, ?_⟩) sign digit
  rw [Json.Lexer.encodeChar_ascii ascii]
  exact List.mem_singleton_self _

/-- No domain name contains a delimiter. -/
theorem domainName?_of_mem_delimiters (listed : c ∈ delimiters) (there : c ∈ cs) :
    domainName? naming cs = none := by
  have plain : ∀ c ∈ delimiters, isForbiddenInDomain c ∧
      isForbiddenInDomain (Char.ofNat (UInt8.ofNat c.toNat).toNat).toLower :=
    List.all_iff_forall_prop.mp (by decide)
  obtain ⟨forbidden, lower⟩ := plain c listed
  have decoded := mem_decode_of_mem_delimiters listed there
  simp only [domainName?]
  split
  · refine if_pos ?_
    rw [Bool.or_eq_true, Bool.or_eq_true]
    exact .inl (.inr (List.any_eq_true.mpr ⟨_, List.mem_map_of_mem decoded, lower⟩))
  · rw [Option.filter_eq_none_iff]
    intro name named
    have kept := naming.keeps _ name named c listed decoded
    have some : name.any isForbiddenInDomain = true := List.any_eq_true.mpr ⟨c, kept, forbidden⟩
    rw [some, Bool.not_true, Bool.and_false]
    exact Bool.false_ne_true

/-- A host is a name without delimiters, or stands in brackets that contain no other ones. -/
theorem parse?_cases (host : parse? naming cs = some h) : (∀ c ∈ delimiters, c ∉ cs) ∨
    ∃ inner, cs = '[' :: (inner ++ [']']) ∧ ∀ c ∈ delimiters, c ∈ inner → c = ':' := by
  unfold parse? at host
  split at host
  · rename_i cs
    unfold bracketed? at host
    split at host
    · rename_i last
      obtain ⟨ns, read, -⟩ := Option.map_eq_some_iff.mp host
      refine .inr ⟨cs.dropLast, ?_, fun c listed there => ?_⟩
      · rw [List.dropLast_append_getLast? _ last]
      · have digits : ∀ c ∈ delimiters, c ≠ '.' ∧ Hex.value? c = none :=
          List.all_iff_forall_prop.mp (by decide)
        obtain ⟨dot, digit⟩ := digits c listed
        obtain colon | rfl | value := Address.spells_of_eightGroups? read c there
        · exact colon
        · exact absurd rfl dot
        · rw [digit] at value
          cases value
    · cases host
  · refine .inl fun c listed there => ?_
    rw [domainName?_of_mem_delimiters listed there] at host
    cases host

/-- A text with a break in it is no host. -/
theorem parse?_of_mem_breaks (listed : c ∈ breaks) (there : c ∈ cs) : parse? naming cs = none := by
  refine Option.eq_none_iff_forall_ne_some.mpr fun h host => ?_
  obtain clean | ⟨inner, rfl, clean⟩ := parse?_cases host
  · exact clean c (mem_delimiters_of_mem_breaks listed) there
  · have other : ∀ c ∈ breaks, c ≠ '[' ∧ c ≠ ']' ∧ c ≠ ':' :=
      List.all_iff_forall_prop.mp (by decide)
    obtain ⟨left, right, colon⟩ := other c listed
    simp only [List.mem_cons, List.mem_append, List.not_mem_nil, or_false] at there
    obtain rfl | inside | rfl := there
    · exact left rfl
    · exact colon (clean c (mem_delimiters_of_mem_breaks listed) inside)
    · exact right rfl

end Host

/-! ### The colon after a host -/

/-- The end of the text is inside brackets. -/
def endsInside (inside : Bool) (cs : List Char) : Bool :=
  cs.foldl (fun inside c => if c = '[' then true else if c = ']' then false else inside) inside

section Split
variable {naming : Host.Naming} {inside : Bool} {cs tail name : List Char} {c : Char} {h : Host}

theorem splitHost_cons (plain : ¬ (c = ':' ∧ inside = false)) :
    splitHost inside (c :: cs) =
      (c :: (splitHost (endsInside inside [c]) cs).1,
        (splitHost (endsInside inside [c]) cs).2) := by
  rw [splitHost, if_neg (by simpa using plain)]
  rfl

/-- A text has no colon outside brackets, or is split at the first. -/
theorem splitHost_cases (inside : Bool) (cs : List Char) :
    splitHost inside cs = (cs, []) ∨ ∃ name rest, splitHost inside cs = (name, ':' :: rest) := by
  induction cs generalizing inside with
  | nil => exact .inl rfl
  | cons c cs ih =>
    by_cases colon : c = ':' ∧ inside = false
    · obtain ⟨rfl, rfl⟩ := colon
      exact .inr ⟨[], cs, rfl⟩
    · rw [splitHost_cons colon]
      obtain whole | ⟨name, rest, split⟩ := ih (endsInside inside [c])
      · exact .inl (by rw [whole])
      · exact .inr ⟨c :: name, rest, by rw [split]⟩

/-- Behind a text without a colon outside brackets the search goes on. -/
theorem splitHost_append (whole : splitHost inside cs = (cs, [])) (tail : List Char) :
    splitHost inside (cs ++ tail) = (cs ++ (splitHost (endsInside inside cs) tail).1,
      (splitHost (endsInside inside cs) tail).2) := by
  induction cs generalizing inside with
  | nil => rfl
  | cons c cs ih =>
    by_cases colon : c = ':' ∧ inside = false
    · obtain ⟨rfl, rfl⟩ := colon
      cases whole
    · rw [splitHost_cons colon, Prod.mk.injEq, List.cons.injEq] at whole
      rw [List.cons_append, splitHost_cons colon, ih (Prod.ext whole.1.2 whole.2)]
      rfl

theorem splitHost_append_of_split {rest : List Char}
    (split : splitHost inside cs = (name, ':' :: rest)) (tail : List Char) :
    splitHost inside (cs ++ tail) = (name, ':' :: rest ++ tail) := by
  induction cs generalizing inside name with
  | nil => cases split
  | cons c cs ih =>
    by_cases colon : c = ':' ∧ inside = false
    · obtain ⟨rfl, rfl⟩ := colon
      cases split
      rfl
    · rw [splitHost_cons colon, Prod.mk.injEq] at split
      obtain ⟨rfl, split⟩ := split
      rw [List.cons_append, splitHost_cons colon, ih (Prod.ext rfl split)]

theorem endsInside_cons : endsInside inside (c :: cs) = endsInside (endsInside inside [c]) cs := rfl

/-- Nothing is inside brackets where none was opened. -/
theorem endsInside_of_not_mem (absent : '[' ∉ cs) : endsInside false cs = false := by
  induction cs with
  | nil => rfl
  | cons c cs ih =>
    obtain ⟨other, absent⟩ := List.ne_and_not_mem_of_not_mem_cons absent
    have still : endsInside false [c] = false := by simp [endsInside, other.symm]
    rw [endsInside_cons, still, ih absent]

theorem splitHost_outside (plain : ∀ c ∈ Host.delimiters, c ∉ cs) :
    splitHost false cs = (cs, []) := by
  induction cs with
  | nil => rfl
  | cons c cs ih =>
    have other : ∀ d ∈ Host.delimiters, c ≠ d := fun d listed same =>
      plain d listed (same ▸ List.mem_cons_self)
    have still : endsInside false [c] = false :=
      endsInside_of_not_mem fun there => other '[' (by decide) (List.mem_singleton.mp there).symm
    rw [splitHost_cons fun colon => other ':' (by decide) colon.1, still,
      ih fun d listed there => plain d listed (.tail _ there)]

theorem splitHost_inside (absent : ']' ∉ cs) :
    splitHost true cs = (cs, []) ∧ endsInside true cs = true := by
  induction cs with
  | nil => exact ⟨rfl, rfl⟩
  | cons c cs ih =>
    obtain ⟨other, absent⟩ := List.ne_and_not_mem_of_not_mem_cons absent
    have still : endsInside true [c] = true := by simp [endsInside, other.symm]
    obtain ⟨whole, inside⟩ := ih absent
    rw [splitHost_cons (by simp), still, whole, endsInside_cons, still]
    exact ⟨rfl, inside⟩

/-- A host has no colon outside brackets, and closes them. -/
theorem splitHost_of_parse? (host : Host.parse? naming cs = some h) :
    splitHost false cs = (cs, []) ∧ endsInside false cs = false := by
  obtain plain | ⟨inner, rfl, plain⟩ := Host.parse?_cases host
  · exact ⟨splitHost_outside plain, endsInside_of_not_mem (plain '[' (by decide))⟩
  · have closed : ']' ∉ inner := fun there => by
      cases plain ']' (by decide) there
    obtain ⟨whole, stays⟩ := splitHost_inside closed
    constructor
    · rw [splitHost_cons (by simp), show endsInside false ['['] = true from rfl,
        splitHost_append whole, stays]
      rfl
    · rw [endsInside_cons, endsInside, List.foldl_append]
      rfl

end Split

end RemoteNode.Url
