import RemoteNode.Proxy
import RemoteNode.Proofs.Text.Numbers
import RemoteNode.Proofs.Url.Hosts
import Mathlib.Data.List.TakeWhile

/-! The URL of the node that settings name. The host is put into the text of a URL as it is, and
nothing checks it there: one that contains a break is read as something else, if it is read at all.
Without one the URL has exactly the host and the port that were chosen. -/

namespace RemoteNode

namespace Url

open Text Decimal

variable {naming : Host.Naming} {scheme cs : List Char} {c : Char} {n : Nat} {h : Host}

/-- A text without breaks. -/
def Unbroken (cs : List Char) : Prop := ∀ c ∈ Host.breaks, c ∉ cs

instance : Decidable (Unbroken cs) := List.decidableBAll ..

/-! ### The port -/

theorem unbroken_digits : Unbroken (':' :: digits n) := by
  intro c listed there
  obtain rfl | digit := List.mem_cons.mp there
  · revert listed
    decide
  · have other := Host.isDigit_of_mem_delimiters (Host.mem_delimiters_of_mem_breaks listed)
    rw [isDigit_of_mem_digits digit] at other
    cases other

/-- The port is read from its digits; the standard port is left out. -/
theorem port?_digits (small : n < 65536) (standard : Option Nat) :
    port? standard (digits n) = some (if some n = standard then none else some n, []) := by
  have all : ∀ c ∈ digits n, c.isDigit := fun c there => isDigit_of_mem_digits there
  have taken : (digits n).takeWhile Char.isDigit = digits n :=
    List.takeWhile_eq_self_iff.mpr all
  have dropped : (digits n).dropWhile Char.isDigit = [] := List.dropWhile_eq_nil_iff.mpr all
  simp only [port?, taken, dropped, port?.finish, natural?_digits, small, if_true]

/-- A port has nothing but digits in front of a backslash. -/
theorem port?_eq_none (standard : Option Nat) (slash : '\\' ∉ cs) (there : c ∈ cs)
    (other : c.isDigit = false) : port? standard cs = none := by
  simp only [port?]
  split
  · rename_i d rest left
    have kept : d ∈ cs := (List.dropWhile_sublist _).subset (left ▸ List.mem_cons_self)
    refine if_neg ?_
    rintro rfl
    exact slash kept
  · rename_i left
    rw [List.dropWhile_eq_nil_iff.mp left c there] at other
    cases other

/-! ### The host in front of the port -/

theorem splitHost_join (inside : Bool) (cs : List Char) :
    (splitHost inside cs).1 ++ (splitHost inside cs).2 = cs := by
  induction cs generalizing inside with
  | nil => rfl
  | cons c cs ih =>
    by_cases colon : c = ':' ∧ inside = false
    · obtain ⟨rfl, rfl⟩ := colon
      rfl
    · rw [splitHost_cons colon, List.cons_append, ih]

/-- Brackets that are open in front of the port are not closed by it. -/
theorem parse?_of_endsInside (opened : endsInside false cs = true) :
    Host.parse? naming (cs ++ ':' :: digits n) = none := by
  refine Option.eq_none_iff_forall_ne_some.mpr fun h host => ?_
  have bracket : '[' ∈ cs := by
    by_contra absent
    rw [endsInside_of_not_mem absent] at opened
    cases opened
  obtain plain | ⟨inner, same, -⟩ := Host.parse?_cases host
  · exact plain '[' (by decide) (List.mem_append_left _ bracket)
  · have last : (':' :: digits n).getLast? = some ']' := by
      have whole := congrArg List.getLast? same
      rwa [List.getLast?_append_of_ne_nil _ (List.cons_ne_nil _ _), ← List.cons_append,
        List.getLast?_concat] at whole
    have there := List.mem_of_getLast? last
    obtain digit : ']' ∈ digits n := by simpa using there
    cases isDigit_of_mem_digits digit

/-- In front of the port the chosen host is read, and nothing else. -/
theorem place?_port (unbroken : Unbroken cs) (small : n < 65536) :
    place? naming (.special 80) (cs ++ ':' :: digits n) =
      (Host.parse? naming cs).map (⟨·, if n = 80 then none else some n, []⟩) := by
  cases host : Host.parse? naming cs with
  | some h =>
    obtain ⟨whole, outside⟩ := splitHost_of_parse? host
    have named : cs ≠ [] := by
      rintro rfl
      cases host
    have split : splitHost false (cs ++ ':' :: digits n) = (cs, ':' :: digits n) := by
      rw [splitHost_append whole, outside]
      simp [splitHost]
    simp [place?, split, host, named, port?_digits small]
  | none =>
    obtain whole | ⟨name, rest, split⟩ := splitHost_cases false cs
    · cases opened : endsInside false cs with
      | true =>
        have closed : ']' ∉ ':' :: digits n := fun there => by
          obtain digit : ']' ∈ digits n := by simpa using there
          cases isDigit_of_mem_digits digit
        have split : splitHost false (cs ++ ':' :: digits n) = (cs ++ ':' :: digits n, []) := by
          rw [splitHost_append whole, opened, (splitHost_inside closed).1]
        simp [place?, split, parse?_of_endsInside opened]
      | false =>
        have split : splitHost false (cs ++ ':' :: digits n) = (cs, ':' :: digits n) := by
          rw [splitHost_append whole, opened]
          simp [splitHost]
        simp [place?, split, host]
    · -- The colon in the name leaves a second one in the port.
      have apart : cs = name ++ ':' :: rest := by
        rw [← splitHost_join false cs, split]
      have slash : '\\' ∉ rest ++ ':' :: digits n := by
        rw [List.mem_append, not_or]
        refine ⟨fun there => unbroken '\\' (by decide) ?_, unbroken_digits _ (by decide)⟩
        rw [apart]
        exact List.mem_append_right _ (.tail _ there)
      have second := port?_eq_none (some 80) slash (List.mem_append_right _ List.mem_cons_self) rfl
      simp [place?, splitHost_append_of_split split, second]

/-! ### The whole URL -/

theorem withAuthority?_of_unbroken (unbroken : Unbroken cs) (given : cs ≠ []) :
    withAuthority? naming scheme (.special 80) (cs ++ ['/']) =
      (place? naming (.special 80) cs).map fun place =>
        ⟨scheme, [], [], some place.host, place.port,
          pathAfter (.special 80) (place.rest ++ ['/']), none, none⟩ := by
  have inside : ∀ c ∈ cs, (!(Kind.special 80).style.isSeparator c) = true := by
    intro c there
    have slash : c ≠ '/' := fun same => unbroken '/' (by decide) (same ▸ there)
    have backslash : c ≠ '\\' := fun same => unbroken '\\' (by decide) (same ▸ there)
    simp [Path.Style.isSeparator, slash, backslash]
  have outside : (!(Kind.special 80).style.isSeparator '/') = false := rfl
  have anonymous : Text.cutLast '@' cs = none := by
    have absent : '@' ∉ cs.reverse := fun there =>
      unbroken '@' (by decide) (List.mem_reverse.mp there)
    rw [Text.cutLast, Text.cut_of_not_mem absent]
  simp [withAuthority?, List.takeWhile_append_of_pos inside, List.dropWhile_append_of_pos inside,
    outside, anonymous, given]

/-- Nothing is dropped from the text of a URL without breaks. -/
theorem clean_of_unbroken (unbroken : Unbroken cs) :
    clean ("http://".toList ++ cs ++ ['/']) = "http://".toList ++ cs ++ ['/'] := by
  have around : ("http://".toList ++ ['/']).all (fun c => c != '\t' && c != '\n' && c != '\r') := by
    decide
  have kept : ∀ c ∈ "http://".toList ++ cs ++ ['/'],
      (c != '\t' && c != '\n' && c != '\r') = true := by
    intro c there
    simp only [List.mem_append] at there
    obtain (front | there) | last := there
    · exact List.all_eq_true.mp around c (List.mem_append_left _ front)
    · have other : ∀ d ∈ Host.breaks, c ≠ d := fun d listed same => unbroken d listed (same ▸ there)
      simp [other '\t' (by decide), other '\n' (by decide), other '\r' (by decide)]
    · exact List.all_eq_true.mp around c (List.mem_append_right _ last)
  have front : ("http://".toList ++ cs ++ ['/']).dropWhile isOuter =
      "http://".toList ++ cs ++ ['/'] := rfl
  rw [clean, front, List.reverse_append, List.reverse_singleton, List.singleton_append,
    List.dropWhile_cons_of_neg (by decide), List.reverse_cons, List.reverse_reverse]
  exact List.filter_eq_self.mpr kept

/-- A URL is read from an authority without breaks as from its host and port. -/
theorem parse?_of_unbroken (unbroken : Unbroken cs) (given : cs ≠ []) :
    parse? ("http://".toList ++ cs ++ ['/']) naming =
      (place? naming (.special 80) cs).map fun place =>
        ⟨"http".toList, [], [], some place.host, place.port,
          pathAfter (.special 80) (place.rest ++ ['/']), none, none⟩ := by
  have scheme : scheme? ("http://".toList ++ cs ++ ['/']) =
      some ("http".toList, "//".toList ++ cs ++ ['/']) := rfl
  have whole : ∀ mark ∈ ['#', '?'], mark ∉ "//".toList ++ cs ++ ['/'] := by
    have apart : ∀ mark ∈ ['#', '?'], mark ∈ Host.breaks ∧ mark ∉ "//".toList ∧ mark ∉ ['/'] :=
      List.all_iff_forall_prop.mp (by decide)
    intro mark listed there
    obtain ⟨isBreak, front, last⟩ := apart mark listed
    simp only [List.mem_append, front, last, false_or, or_false] at there
    exact unbroken mark isBreak there
  have slashes : ("//".toList ++ cs ++ ['/']).dropWhile (Kind.special 80).style.isSeparator =
      cs ++ ['/'] := by
    obtain ⟨c, ds, rfl⟩ := List.exists_cons_of_ne_nil given
    have slash : c ≠ '/' := fun same => unbroken '/' (by decide) (same ▸ List.mem_cons_self)
    have backslash : c ≠ '\\' := fun same => unbroken '\\' (by decide) (same ▸ List.mem_cons_self)
    change (c :: ds ++ ['/']).dropWhile _ = _
    rw [List.cons_append, List.dropWhile_cons_of_neg]
    simp [Path.Style.isSeparator, slash, backslash]
  have kind : Kind.ofScheme "http".toList = .special 80 := rfl
  simp only [parse?, clean_of_unbroken unbroken, scheme, Option.bind_eq_bind, Option.bind_some,
    Text.cut_of_not_mem (whole '#' (by decide)), Text.cut_of_not_mem (whole '?' (by decide)), kind,
    ofScheme?, slashes, withAuthority?_of_unbroken unbroken given]
  cases place? naming (.special 80) cs <;> rfl

/-- A URL names a node: it has the host and the port of the node, and nothing else that could lead
elsewhere. -/
structure Names (naming : Host.Naming) (e : Endpoint) (u : Url) : Prop where
  scheme : u.scheme = "http".toList
  host : ∃ h, Host.parse? naming e.host.toList = some h ∧ u.host = some h
  port : u.effectivePort = some e.port.toNat
  anonymous : u.userName = [] ∧ u.password = []
  path : u.path.characters = ['/']
  query : u.query = none
  fragment : u.fragment = none

end Url

namespace Endpoint

open Url

variable {naming : Host.Naming} {e : Endpoint}

/-- The URL of a node whose host has no breaks. -/
theorem url?_of_unbroken (unbroken : Unbroken e.host.toList) :
    e.url? naming = (Host.parse? naming e.host.toList).map fun h =>
      ⟨"http".toList, [], [], some h, if e.port.toNat = 80 then none else some e.port.toNat,
        .segments [[]], none, none⟩ := by
  have whole : Unbroken e.characters := fun c listed there =>
    (List.mem_append.mp there).elim (unbroken c listed) (unbroken_digits c listed)
  have given : e.characters ≠ [] := List.append_ne_nil_of_right_ne_nil _ (List.cons_ne_nil _ _)
  rw [url?, parse?_of_unbroken whole given, characters, place?_port unbroken e.port.toNat_lt,
    Option.map_map]
  rfl

/-- A URL names its node if and only if the host has no breaks. -/
theorem names_iff {u : Url} (found : e.url? naming = some u) :
    u.Names naming e ↔ Unbroken e.host.toList := by
  constructor
  · intro names c listed there
    obtain ⟨h, host, -⟩ := names.host
    rw [Host.parse?_of_mem_breaks listed there] at host
    cases host
  · intro unbroken
    rw [url?_of_unbroken unbroken] at found
    obtain ⟨h, host, rfl⟩ := Option.map_eq_some_iff.mp found
    refine ⟨rfl, ⟨h, host, rfl⟩, ?_, ⟨rfl, rfl⟩, rfl, rfl, rfl⟩
    simp only [effectivePort]
    by_cases standard : e.port.toNat = 80
    · rw [if_pos standard, standard]
      rfl
    · rw [if_neg standard]

end Endpoint

namespace Proxy

open Url

variable {naming : Host.Naming} {s : Settings} {p : Proxy}

/-- What a proxy is built from. -/
theorem ofSettings_eq_ok_iff : ofSettings s naming = .ok p ↔ s.fault? = none ∧
    ∃ u, s.endpoint.url? naming = some u ∧
      p = ⟨s.endpoint, u, .ofDuration s.timeout, s.pullInterval⟩ := by
  simp only [ofSettings, Settings.check, Settings.url]
  cases s.fault? <;> cases s.endpoint.url? naming <;> simp [eq_comm]

/-- Of settings whose host has no breaks, a proxy is built if and only if nothing is wrong with them
and the host is one. -/
theorem exists_ofSettings_iff (unbroken : Unbroken s.endpoint.host.toList) :
    (∃ p, ofSettings s naming = .ok p) ↔
      s.fault? = none ∧ (Host.parse? naming s.endpoint.host.toList).isSome := by
  simp only [ofSettings_eq_ok_iff, Endpoint.url?_of_unbroken unbroken]
  cases Host.parse? naming s.endpoint.host.toList <;> simp

/-- Requests are resolved against a URL that names the chosen node if and only if its host has no
breaks. -/
theorem names_iff_of_ofSettings (built : ofSettings s naming = .ok p) :
    p.base.Names naming s.endpoint ↔ Unbroken s.endpoint.host.toList := by
  obtain ⟨-, u, found, rfl⟩ := ofSettings_eq_ok_iff.mp built
  exact Endpoint.names_iff found

/-- A sixteen-byte address with the standard port of web pages. -/
def loopback : Settings := .ofEndpoint ⟨"[::1]", 80⟩

theorem names_loopback : ∃ p, ofSettings loopback = .ok p ∧
    (p.base.Names .ascii loopback.endpoint ↔ Unbroken loopback.endpoint.host.toList) ∧
    Unbroken loopback.endpoint.host.toList := by
  have found : loopback.endpoint.url?.isSome := by decide +kernel
  obtain ⟨u, found⟩ := Option.isSome_iff_exists.mp found
  have built := ofSettings_eq_ok_iff.mpr ⟨by decide +kernel, u, found, rfl⟩
  exact ⟨_, built, names_iff_of_ofSettings built, by decide +kernel⟩

/-- A user name in front of the host: nothing is wrong with the settings, and what was chosen as the
host is cut in two. -/
theorem exists_not_names : ∃ s p, ofSettings s = .ok p ∧ s.endpoint.host = "user@node" ∧
    p.base.userName = "user".toList ∧ p.base.host = some (.domain "node".toList) ∧
    ¬ p.base.Names .ascii s.endpoint := by
  let s := Settings.ofEndpoint ⟨"user@node", 18333⟩
  have found : s.endpoint.url? = some ⟨"http".toList, "user".toList, [],
      some (.domain "node".toList), some 18333, .segments [[]], none, none⟩ := by decide +kernel
  have built := ofSettings_eq_ok_iff.mpr ⟨by decide +kernel, _, found, rfl⟩
  exact ⟨s, _, built, rfl, rfl, rfl, fun names => absurd names.anonymous.1 (by decide)⟩

end Proxy

end RemoteNode
