import Mathlib.Data.List.Count
import Simorgh.Lib.Separators
import Simorgh.Radius.Sessions

/-!
# Finding the interface of a session

A PPP session is judged alive, and its `pppd` is found, by looking for its address in the
text of `ip -o addr show`.

* `killPppdByIP`, `isIPActive` — the two searches, on the text.
* `AddrLine` — what the text is of: interfaces, their addresses and their peers'.
* `text_infix_text` — one address is found in another exactly if its last octet begins the
  other's, its first octet ends the other's, and the two between are the same.
* `searches_exact_iff` — the searches find the session's own interface exactly if no line
  shows the address as a part of something else.
* `neighbour_killed` — 10.0.5.2 is found in the line of 10.0.5.20.
-/

namespace Simorgh.Radius

open Simorgh.Lib Simorgh.Panel

/-- A text as its characters. -/
abbrev Text := List Char

/-! ## The searches -/

/-- `strings.Fields`. -/
def fields (line : Text) : List Text := (line.splitOnP isSpace).filter (· ≠ [])

/-- A `pppd` that is sent a signal, by its interface. -/
structure Signal where
  iface : Text
  pid : String
  deriving DecidableEq

/-- The process a `pppd` interface belongs to, by its file. -/
def pppdOf (readFile : String → Option String) (iface : Text) : Option Signal :=
  (readFile ("/var/run/" ++ String.ofList iface ++ ".pid")).bind fun data =>
    if trimSpace data = "" then none else some ⟨iface, trimSpace data⟩

/-- What one line of the listing has `killPppdByIP` do. -/
def killOnLine (readFile : String → Option String) (ip line : Text) : Option Signal :=
  if ip <:+: line then
    match fields line with
    | _ :: iface :: _ => if "ppp".toList <+: iface then pppdOf readFile iface else none
    | _ => none
  else none

/-- `killPppdByIP`.  Without a listing nothing is done. -/
def killPppdByIP (addrShow : Option Text) (readFile : String → Option String) (ip : Text) : List Signal :=
  match addrShow with
  | none => []
  | some output => (output.splitOn '\n').filterMap (killOnLine readFile ip)

/-- What the host answers. -/
structure Probes where
  /-- The output of `ip -o addr show`. -/
  addrShow : Option Text
  /-- The output of `ip route get`. -/
  routeGet : Text → Option Text
  ikev2IPActive : Text → Bool

/-- A session holds the address. -/
def isIPActive (host : Probes) (ip : Text) : Protocol → Bool
  | .openvpn => (host.routeGet ip).any fun output => decide ("tun-ovpn".toList <:+: output)
  | .openconnect => (host.routeGet ip).any fun output => decide ("ocserv".toList <:+: output)
  | .ikev2 => host.ikev2IPActive ip
  | _ => host.addrShow.all fun output => decide (ip <:+: output)

/-- The sessions of the accounts, that hold a `ppp` interface. -/
def toKill (sessions : List Session) (emails : String → Bool) : List Session :=
  sessions.filter fun sess =>
    decide (sess.protocol ≠ .openconnect ∧ sess.protocol ≠ .sstp ∧ sess.protocol ≠ .ikev2) && emails sess.email

/-- `KillSessionsByEmail`, as far as it signals a `pppd`. -/
def killSessionsByEmail (sessions : List Session) (emails : String → Bool) (addrShow : Option Text)
    (readFile : String → Option String) : List Signal :=
  (toKill sessions emails).flatMap fun sess => killPppdByIP addrShow readFile sess.ip.toList

/-! ## What is listed -/

/-- An address as four bytes. -/
structure IPv4 where
  a : Fin 256
  b : Fin 256
  c : Fin 256
  d : Fin 256
  deriving DecidableEq

/-- A byte in decimal digits. -/
def octetText (o : Fin 256) : Text := Nat.toDigits 10 o

/-- An address with its dots. -/
def IPv4.text (ip : IPv4) : Text :=
  octetText ip.a ++ '.' :: (octetText ip.b ++ '.' :: (octetText ip.c ++ '.' :: octetText ip.d))

/-- One line: an interface with one of its addresses.  A line of the other family has words
only. -/
structure AddrLine where
  index : ℕ
  name : Text
  /-- The address, the peer's on a link of two ends, and the length of the prefix. -/
  address : Option (IPv4 × Option IPv4 × ℕ)
  /-- The words that follow: the broadcast address, the scope, the label, the lifetimes. -/
  rest : List Text
  name_ne : name ≠ []
  name_plain : ∀ c ∈ name, isSpace c = false
  rest_plain : ∀ w ∈ rest, '\n' ∉ w

/-- The address of the other end. -/
def AddrLine.peer (l : AddrLine) : Option IPv4 := l.address.bind fun a => a.2.1

/-- The words that hold addresses. -/
def AddrLine.addressWords (l : AddrLine) : List Text :=
  match l.address with
  | none => []
  | some (own, none, len) => ["inet".toList, own.text ++ '/' :: Nat.toDigits 10 len]
  | some (own, some peer, len) =>
      ["inet".toList, own.text, "peer".toList, peer.text ++ '/' :: Nat.toDigits 10 len]

/-- The line as it is printed. -/
def AddrLine.text (l : AddrLine) : Text :=
  Nat.toDigits 10 l.index ++ ':' :: ' ' :: l.name ++
    ([[], [], []] ++ l.addressWords ++ l.rest).flatMap (' ' :: ·)

/-- The listing as it is printed. -/
def listing (lines : List AddrLine) : Text := lines.flatMap fun l => l.text ++ ['\n']

/-- One address is part of another's text. -/
structure IPv4.PartOf (ip other : IPv4) : Prop where
  first : octetText ip.a <:+ octetText other.a
  second : ip.b = other.b
  third : ip.c = other.c
  last : octetText ip.d <+: octetText other.d

/-- A line shows an address: as its own or its peer's, or as a part of them, of the name or of
one of the other words. -/
def AddrLine.Shows (l : AddrLine) (ip : IPv4) : Prop :=
  ip.text <:+: l.name ∨
    (∃ a ∈ l.address, ip.PartOf a.1 ∨ ∃ peer ∈ a.2.1, ip.PartOf peer) ∨ ∃ w ∈ l.rest, ip.text <:+: w

/-- Only the session's own interface is signalled, and its session is active if and only if
the interface is there. -/
structure SearchesExact (lines : List AddrLine) (readFile : String → Option String) (ip : IPv4) : Prop where
  kills : ∀ s ∈ killPppdByIP (some (listing lines)) readFile ip.text,
    ∃ l ∈ lines, l.name = s.iface ∧ l.peer = some ip
  active : ∀ protocol ∈ [Protocol.l2tp, .pptp, .sstp], ∀ host : Probes, host.addrShow = some (listing lines) →
    (isIPActive host ip.text protocol = true ↔ ∃ l ∈ lines, l.peer = some ip)

/-- No line shows the address but for an interface whose peer has it. -/
structure ShownAlone (lines : List AddrLine) (readFile : String → Option String) (ip : IPv4) : Prop where
  kills : ∀ l ∈ lines, l.Shows ip → "ppp".toList <+: l.name → (pppdOf readFile l.name).isSome = true →
    ∃ l' ∈ lines, l'.name = l.name ∧ l'.peer = some ip
  active : (∃ l ∈ lines, l.Shows ip) → ∃ l ∈ lines, l.peer = some ip

/-! ## Parts of a text -/

/-- What has no blank in it is in one of the words. -/
theorem infix_words_iff {w x : Text} (hw : ' ' ∉ w) (ws : List Text) :
    w <:+: x ++ ws.flatMap (' ' :: ·) ↔ w <:+: x ∨ ∃ u ∈ ws, w <:+: u := by
  induction ws generalizing x with
  | nil => simp
  | cons u ws ih =>
      rw [List.flatMap_cons, ← List.append_assoc, ih, infix_append_cons_iff hw, or_assoc, List.exists_mem_cons_iff]

/-- What has no end of line in it is in one of the lines. -/
theorem infix_listing_iff {w : Text} (hw : '\n' ∉ w) (hne : w ≠ []) (lines : List AddrLine) :
    w <:+: listing lines ↔ ∃ l ∈ lines, w <:+: l.text := by
  induction lines with
  | nil => simp [listing, hne]
  | cons l lines ih =>
      have hcons : listing (l :: lines) = l.text ++ '\n' :: listing lines := by
        rw [listing, List.flatMap_cons, List.append_assoc]
        rfl
      rw [hcons, infix_append_cons_iff hw, ih, List.exists_mem_cons_iff]

/-! ## Numerals and addresses -/

theorem isDigit_of_mem_octetText {o : Fin 256} {c : Char} (h : c ∈ octetText o) : c.isDigit = true :=
  Nat.isDigit_of_mem_toDigits (by decide) (by decide) h

theorem dot_notMem_toDigits (n : ℕ) : '.' ∉ Nat.toDigits 10 n := by
  intro h
  have hdigit := Nat.isDigit_of_mem_toDigits (by decide) (by decide) h
  revert hdigit
  decide

theorem octetText_injective {o o' : Fin 256} (h : octetText o = octetText o') : o = o' := by
  have hvalue := congrArg (fun ds => Nat.ofDigitChars 10 ds 0) h
  simp only [octetText, Nat.ofDigitChars_ten_toDigits] at hvalue
  exact Fin.ext hvalue

theorem dot_mem_text (ip : IPv4) : '.' ∈ ip.text := by simp [IPv4.text]

/-- An address is of digits and dots. -/
theorem mem_text {ip : IPv4} {c : Char} (h : c ∈ ip.text) : c = '.' ∨ c.isDigit = true := by
  simp only [IPv4.text, List.mem_append, List.mem_cons] at h
  obtain h | h | h | h | h | h | h := h
  · exact .inr (isDigit_of_mem_octetText h)
  · exact .inl h
  · exact .inr (isDigit_of_mem_octetText h)
  · exact .inl h
  · exact .inr (isDigit_of_mem_octetText h)
  · exact .inl h
  · exact .inr (isDigit_of_mem_octetText h)

theorem notMem_text (ip : IPv4) {c : Char} (hdot : c ≠ '.') (hdigit : c.isDigit = false) : c ∉ ip.text := by
  intro h
  obtain h | h := mem_text h
  · exact hdot h
  · rw [hdigit] at h
    cases h

/-- An address is no part of what has no dot. -/
theorem not_infix_of_dotless (ip : IPv4) {w : Text} (h : '.' ∉ w) : ¬ip.text <:+: w := fun hpart =>
  h (hpart.subset (dot_mem_text ip))

theorem count_dot_text (ip : IPv4) : ip.text.count '.' = 3 := by
  have hnone : ∀ o : Fin 256, (octetText o).count '.' = 0 := fun o =>
    List.count_eq_zero.2 (dot_notMem_toDigits o)
  simp [IPv4.text, hnone]

/-- Where one address is found in another. -/
theorem text_infix_text {ip other : IPv4} : ip.text <:+: other.text ↔ ip.PartOf other := by
  constructor
  · rintro ⟨s, t, h⟩
    -- both have three dots, so that there is none before or after
    have hcount := congrArg (List.count '.') h
    rw [List.count_append, List.count_append, count_dot_text, count_dot_text] at hcount
    have hs : '.' ∉ s := List.count_eq_zero.1 (by omega)
    have ht : '.' ∉ t := List.count_eq_zero.1 (by omega)
    have hshape : (s ++ octetText ip.a) ++ '.' :: (octetText ip.b ++ '.' :: (octetText ip.c ++ '.' ::
        (octetText ip.d ++ t))) = octetText other.a ++ '.' :: (octetText other.b ++ '.' ::
          (octetText other.c ++ '.' :: octetText other.d)) := by
      have h' : s ++ ip.text ++ t = other.text := h
      simpa [IPv4.text] using h'
    have hdigits : ∀ o : Fin 256, '.' ∉ octetText o := fun o => dot_notMem_toDigits o
    obtain ⟨hfirst, hshape⟩ := append_cons_inj (by simp [hs, hdigits]) (hdigits _) hshape
    obtain ⟨hsecond, hshape⟩ := append_cons_inj (hdigits _) (hdigits _) hshape
    obtain ⟨hthird, hlast⟩ := append_cons_inj (hdigits _) (hdigits _) hshape
    exact ⟨⟨s, hfirst⟩, octetText_injective hsecond, octetText_injective hthird, ⟨t, hlast⟩⟩
  · rintro ⟨⟨s, hfirst⟩, hsecond, hthird, ⟨t, hlast⟩⟩
    refine ⟨s, t, ?_⟩
    rw [IPv4.text, IPv4.text, ← hfirst, hsecond, hthird, ← hlast]
    simp

/-- An address is part of itself. -/
theorem IPv4.partOf_self (ip : IPv4) : ip.PartOf ip := ⟨List.suffix_refl _, rfl, rfl, List.prefix_refl _⟩

/-! ## Lines -/

/-- The search finds an address in a line exactly if the line shows it. -/
theorem infix_text_iff (l : AddrLine) (ip : IPv4) : ip.text <:+: l.text ↔ l.Shows ip := by
  have hblank : ' ' ∉ ip.text := notMem_text ip (by decide) (by decide)
  have hcolon : ':' ∉ ip.text := notMem_text ip (by decide) (by decide)
  have hslash : '/' ∉ ip.text := notMem_text ip (by decide) (by decide)
  have hlen : ∀ (a : IPv4) (len : ℕ), ip.text <:+: a.text ++ '/' :: Nat.toDigits 10 len ↔ ip.PartOf a := by
    intro a len
    rw [infix_append_cons_iff hslash, text_infix_text]
    exact or_iff_left (not_infix_of_dotless ip (dot_notMem_toDigits len))
  have hinet : ¬ip.text <:+: ['i', 'n', 'e', 't'] := not_infix_of_dotless ip (by decide)
  have hpeer : ¬ip.text <:+: ['p', 'e', 'e', 'r'] := not_infix_of_dotless ip (by decide)
  have hnil : ¬ip.text <:+: [] := not_infix_of_dotless ip (by simp)
  have haddress : (∃ u ∈ l.addressWords, ip.text <:+: u) ↔
      ∃ a ∈ l.address, ip.PartOf a.1 ∨ ∃ peer ∈ a.2.1, ip.PartOf peer := by
    unfold AddrLine.addressWords
    split
    · rename_i hnone
      simp [hnone]
    · rename_i own len hsome
      simp [hsome, hlen, hinet]
    · rename_i own peer len hsome
      simp [hsome, hlen, hinet, hpeer, text_infix_text]
  have hindex : ¬ip.text <:+: Nat.toDigits 10 l.index := not_infix_of_dotless ip (dot_notMem_toDigits _)
  unfold AddrLine.text AddrLine.Shows
  rw [infix_words_iff hblank, infix_append_cons_iff hcolon, ← List.nil_append (' ' :: l.name),
    infix_append_cons_iff hblank, or_iff_right hindex, or_iff_right hnil]
  refine or_congr_right ?_
  rw [← haddress]
  simp [hnil, or_and_right, exists_or]

/-- The second field of a line is the name. -/
theorem fields_text (l : AddrLine) : ∃ index rest, fields l.text = index :: l.name :: rest := by
  have hindex : ∀ c ∈ Nat.toDigits 10 l.index ++ [':'], isSpace c = false := by
    intro c hc
    rcases List.mem_append.1 hc with hc | hc
    · exact isSpace_of_isDigit (Nat.isDigit_of_mem_toDigits (by decide) (by decide) hc)
    · rw [List.mem_singleton.1 hc]
      decide
  have hshape : l.text = (Nat.toDigits 10 l.index ++ [':']) ++ ' ' :: (l.name ++ ' ' ::
      (([[], []] ++ l.addressWords ++ l.rest).flatMap (' ' :: ·))) := by
    simp [AddrLine.text]
  refine ⟨Nat.toDigits 10 l.index ++ [':'],
    fields (([[], []] ++ l.addressWords ++ l.rest).flatMap (' ' :: ·)), ?_⟩
  unfold fields
  rw [hshape, List.splitOnP_append_cons_of_forall_mem hindex ' ' (by decide),
    List.splitOnP_append_cons_of_forall_mem l.name_plain ' ' (by decide), List.filter_cons_of_pos (by simp),
    List.filter_cons_of_pos (by simpa using l.name_ne)]

theorem newline_notMem_text (l : AddrLine) : '\n' ∉ l.text := by
  have hdigits : ∀ n, '\n' ∉ Nat.toDigits 10 n := by
    intro n h
    have hdigit := Nat.isDigit_of_mem_toDigits (by decide) (by decide) h
    revert hdigit
    decide
  have hip : ∀ a : IPv4, '\n' ∉ a.text := fun a => notMem_text a (by decide) (by decide)
  have hname : '\n' ∉ l.name := by
    intro h
    have hspace := l.name_plain _ h
    revert hspace
    decide
  have haddress : ∀ w ∈ l.addressWords, '\n' ∉ w := by
    unfold AddrLine.addressWords
    split
    · simp
    · simp [hip, hdigits]
    · simp [hip, hdigits]
  have hrest := l.rest_plain
  unfold AddrLine.text
  simp only [List.mem_append, List.mem_cons, List.mem_flatMap, not_or, not_exists, not_and]
  refine ⟨⟨hdigits _, by decide, by decide, hname⟩, fun w hw => ⟨by decide, ?_⟩⟩
  obtain (hblank | hw) | hw := hw
  · obtain rfl | rfl | rfl | hnone := hblank
    · simp
    · simp
    · simp
    · cases hnone
  · exact haddress w hw
  · exact hrest w hw

theorem splitOn_listing (lines : List AddrLine) :
    (listing lines).splitOn '\n' = lines.map AddrLine.text ++ [[]] := by
  induction lines with
  | nil => rfl
  | cons l lines ih =>
      have hcons : listing (l :: lines) = l.text ++ '\n' :: listing lines := by
        rw [listing, List.flatMap_cons, List.append_assoc]
        rfl
      rw [hcons, List.splitOn_append_cons_self, List.splitOn_eq_singleton (newline_notMem_text l), ih]
      rfl

/-! ## What the searches find -/

variable {lines : List AddrLine} {readFile : String → Option String} {ip : IPv4}

theorem killOnLine_text (l : AddrLine) :
    killOnLine readFile ip.text l.text =
      if ip.text <:+: l.text ∧ "ppp".toList <+: l.name then pppdOf readFile l.name else none := by
  obtain ⟨index, rest, hfields⟩ := fields_text l
  unfold killOnLine
  rw [hfields]
  by_cases hshown : ip.text <:+: l.text
  · simp only [hshown, true_and, if_true]
  · simp only [hshown, false_and, if_false]

theorem iface_of_pppdOf {name : Text} {s : Signal} (h : pppdOf readFile name = some s) : s.iface = name := by
  unfold pppdOf at h
  obtain ⟨data, -, h⟩ := Option.bind_eq_some_iff.1 h
  split at h
  · cases h
  · cases h
    rfl

/-- Who is signalled: the interfaces of the lines that show the address. -/
theorem mem_killPppdByIP {s : Signal} :
    s ∈ killPppdByIP (some (listing lines)) readFile ip.text ↔
      ∃ l ∈ lines, l.Shows ip ∧ "ppp".toList <+: l.name ∧ pppdOf readFile l.name = some s := by
  have hempty : killOnLine readFile ip.text [] = none := by
    unfold killOnLine
    rw [if_neg (not_infix_of_dotless ip (by simp))]
  unfold killPppdByIP
  simp only [splitOn_listing, List.filterMap_append, List.filterMap_cons, hempty, List.filterMap_nil,
    List.append_nil, List.mem_filterMap, List.mem_map]
  constructor
  · rintro ⟨_, ⟨l, hl, rfl⟩, h⟩
    rw [killOnLine_text] at h
    split at h
    · rename_i hshown
      exact ⟨l, hl, (infix_text_iff l ip).1 hshown.1, hshown.2, h⟩
    · cases h
  · rintro ⟨l, hl, hshows, hppp, h⟩
    refine ⟨l.text, ⟨l, hl, rfl⟩, ?_⟩
    rw [killOnLine_text, if_pos ⟨(infix_text_iff l ip).2 hshows, hppp⟩, h]

/-- Which sessions are active: those whose address some line shows. -/
theorem isIPActive_iff {protocol : Protocol} (hprotocol : protocol ∈ [Protocol.l2tp, .pptp, .sstp]) {host : Probes}
    (hhost : host.addrShow = some (listing lines)) :
    isIPActive host ip.text protocol = true ↔ ∃ l ∈ lines, l.Shows ip := by
  have hsearch : isIPActive host ip.text protocol = decide (ip.text <:+: listing lines) := by
    have hcases : protocol = .l2tp ∨ protocol = .pptp ∨ protocol = .sstp := by simpa using hprotocol
    obtain rfl | rfl | rfl := hcases <;> simp [isIPActive, hhost]
  have hne : ip.text ≠ [] := List.ne_nil_of_mem (dot_mem_text ip)
  rw [hsearch, decide_eq_true_iff, infix_listing_iff (notMem_text ip (by decide) (by decide)) hne]
  exact exists_congr fun l => and_congr_right fun _ => infix_text_iff l ip

/-- The peer's line shows the peer. -/
theorem shows_of_peer {l : AddrLine} (h : l.peer = some ip) : l.Shows ip := by
  obtain ⟨a, ha, hpeer⟩ := Option.bind_eq_some_iff.1 h
  exact .inr (.inl ⟨a, ha, .inr ⟨ip, hpeer, ip.partOf_self⟩⟩)

/-- Nothing else is found where nothing else shows the address. -/
theorem searches_exact_of_shownAlone (h : ShownAlone lines readFile ip) : SearchesExact lines readFile ip := by
  refine ⟨fun s hs => ?_, fun protocol hprotocol host hhost => ?_⟩
  · obtain ⟨l, hl, hshows, hppp, hpid⟩ := mem_killPppdByIP.1 hs
    obtain ⟨l', hl', hname, hpeer⟩ := h.kills l hl hshows hppp (by rw [hpid]; rfl)
    exact ⟨l', hl', hname.trans (iface_of_pppdOf hpid).symm, hpeer⟩
  · rw [isIPActive_iff hprotocol hhost]
    constructor
    · exact h.active
    · rintro ⟨l, hl, hpeer⟩
      exact ⟨l, hl, shows_of_peer hpeer⟩

/-- The searches find the session's own interface exactly if nothing else shows its address. -/
theorem searches_exact_iff (lines : List AddrLine) (readFile : String → Option String) (ip : IPv4) :
    SearchesExact lines readFile ip ↔ ShownAlone lines readFile ip := by
  constructor
  · intro h
    refine ⟨fun l hl hshows hppp hpid => ?_, fun hshown => ?_⟩
    · obtain ⟨s, hs⟩ := Option.isSome_iff_exists.1 hpid
      obtain ⟨l', hl', hname, hpeer⟩ := h.kills s (mem_killPppdByIP.2 ⟨l, hl, hshows, hppp, hs⟩)
      exact ⟨l', hl', hname.trans (iface_of_pppdOf hs), hpeer⟩
    · have hactive := h.active .l2tp (by simp) ⟨some (listing lines), fun _ => none, fun _ => false⟩ rfl
      exact hactive.1 ((isIPActive_iff (by simp) rfl).2 hshown)
  · exact searches_exact_of_shownAlone

/-- A link from the server's end to the session that holds 10.0.5.20. -/
def neighbourLine : AddrLine where
  index := 7
  name := "ppp0".toList
  address := some (⟨10, 0, 5, 1⟩, some ⟨10, 0, 5, 20⟩, 32)
  rest := ["scope".toList, "global".toList, "ppp0".toList]
  name_ne := by decide
  name_plain := by
    have hall : ("ppp0".toList.all fun c => !isSpace c) = true := by decide
    simpa using hall
  rest_plain := by decide

/-- The only session there is holds 10.0.5.20.  Looking for 10.0.5.2 signals its `pppd`, and
counts the session that had 10.0.5.2 as active. -/
theorem neighbour_killed :
    killPppdByIP (some (listing [neighbourLine])) (fun _ => some "812") (IPv4.text ⟨10, 0, 5, 2⟩) =
        [⟨"ppp0".toList, "812"⟩] ∧
      isIPActive ⟨some (listing [neighbourLine]), fun _ => none, fun _ => false⟩
        (IPv4.text ⟨10, 0, 5, 2⟩) .l2tp = true ∧
      ¬SearchesExact [neighbourLine] (fun _ => some "812") ⟨10, 0, 5, 2⟩ := by
  have hpart : IPv4.PartOf ⟨10, 0, 5, 2⟩ ⟨10, 0, 5, 20⟩ := ⟨by decide, rfl, rfl, by decide⟩
  have hshows : neighbourLine.Shows ⟨10, 0, 5, 2⟩ := .inr (.inl ⟨_, rfl, .inr ⟨_, rfl, hpart⟩⟩)
  have hactive : isIPActive ⟨some (listing [neighbourLine]), fun _ => none, fun _ => false⟩
      (IPv4.text ⟨10, 0, 5, 2⟩) .l2tp = true :=
    (isIPActive_iff (by simp) rfl).2 ⟨neighbourLine, by simp, hshows⟩
  refine ⟨by decide +kernel, hactive, fun h => ?_⟩
  obtain ⟨l, hl, hpeer⟩ := (h.active .l2tp (by simp) _ rfl).1 hactive
  rw [List.mem_singleton.1 hl] at hpeer
  revert hpeer
  decide

end Simorgh.Radius
