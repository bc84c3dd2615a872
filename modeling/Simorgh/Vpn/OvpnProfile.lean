import Mathlib.Data.List.DropRight
import Simorgh.Lib.Scanner
import Simorgh.Lib.Separators
import Simorgh.Radius.PppLines

/-!
# OpenVPN profiles of an outbound tunnel

An operator pastes the `.ovpn` file of a provider.  The panel takes out the directives that it
owns or that would run programs, and keeps the rest.

* `ovpnOutDirectives`, `ovpnOutFilterProfile` — the code.
* `filterProfile_directives` — what the reader of directives finds in a filtered profile is what it
  found before without those that are dropped, and inline blocks are as they were.
-/

namespace Simorgh.Vpn.OvpnOut

open Simorgh.Lib Simorgh.Panel Simorgh.Radius

section

variable [Runtime]

/-! ## Reading a profile -/

/-- A line of a profile. -/
structure Directive where
  name : String
  args : List String
  deriving DecidableEq

/-- `strings.TrimSpace` on a line. -/
def trim (line : Text) : Text := (trimSpace (String.ofList line)).toList

def hasPrefix (p line : Text) : Bool := p.isPrefixOf line

def hasSuffix (p line : Text) : Bool := p.isSuffixOf line

/-- `strings.TrimPrefix`. -/
def trimPrefix (p line : Text) : Text := if hasPrefix p line then line.drop p.length else line

/-- An empty line or a comment. -/
def isComment (line : Text) : Bool := line == [] || hasPrefix ['#'] line || hasPrefix [';'] line

/-- A line such as `<ca>`. -/
def opensBlock (line : Text) : Bool :=
  hasPrefix ['<'] line && hasSuffix ['>'] line && !hasPrefix ['<', '/'] line

/-- A bracket of a block's tags. -/
def isAngle (c : Char) : Bool := c == '<' || c == '>'

/-- `strings.Trim(line, "<>")`. -/
def trimAngles (line : Text) : Text := (line.dropWhile isAngle).rdropWhile isAngle

/-- The end of an inline block. -/
def closesBlock (block line : Text) : Bool :=
  equalFold (String.ofList line) (String.ofList (['<', '/'] ++ block ++ ['>']))

/-- The directive on a line. -/
def directiveOf (line : Text) : Option Directive :=
  match fields line with
  | [] => none
  | word :: args =>
      some ⟨toLower (String.ofList (trimPrefix ['-', '-'] word)), args.map String.ofList⟩

/-- The block after a line, the empty text when there is none. -/
def nextBlock (block raw : Text) : Text :=
  let line := trim raw
  if block ≠ [] then (if closesBlock block line then [] else block)
  else if isComment line then []
  else if opensBlock line then trimAngles line
  else []

/-- The same, outside of blocks. -/
def directiveAt (block raw : Text) : Option Directive :=
  let line := trim raw
  if block ≠ [] then none
  else if isComment line then none
  else if opensBlock line then none
  else directiveOf line

/-- The loop of `ovpnOutDirectives`. -/
def profileScanner : Scanner Text Text Directive where
  next := nextBlock
  token := directiveAt

/-- The directives of a profile. -/
def ovpnOutDirectives (profile : Text) : List Directive := profileScanner.tokens [] (profile.splitOn '\n')

/-! ## Filtering it -/

/-- The directives the panel owns. -/
def ovpnOutDropped (name : String) : Bool :=
  decide (name ∈ ["dev", "dev-type", "dev-node",
    "daemon", "log", "log-append", "writepid", "status",
    "management", "management-hold", "management-query-passwords",
    "management-signal", "management-up-down", "management-client",
    "auth-user-pass", "askpass", "config", "cd", "chroot",
    "user", "group",
    "route", "route-ipv6", "route-gateway", "route-metric",
    "route-delay", "route-nopull", "route-noexec", "route-up",
    "route-pre-down", "redirect-gateway", "redirect-private",
    "block-outside-dns", "block-ipv6",
    "up", "down", "up-restart", "ipchange", "tls-verify",
    "client-connect", "client-disconnect", "learn-address",
    "auth-user-pass-verify", "script-security", "setenv-safe"])

/-- `strings.TrimRight(raw, "\r")`. -/
def trimReturn (raw : Text) : Text := raw.rdropWhile (· == '\r')

/-- What stands in front of a removed directive. -/
def removedText : Text := "# [vpn-ui] removed, owned by the panel: ".toList

/-- The loop of `ovpnOutFilterProfile`: the lines that are written, and whether one of them asked
for a user name. -/
def filterLines : Text → List Text → List Text × Bool
  | _, [] => ([], false)
  | block, raw :: raws =>
      let line := trimReturn raw
      let trimmed := trim line
      if block ≠ [] then
        let rest := filterLines (if closesBlock block trimmed then [] else block) raws
        (line :: rest.1, rest.2)
      else if opensBlock trimmed then
        let rest := filterLines (trimAngles trimmed) raws
        (line :: rest.1, rest.2)
      else if isComment trimmed then
        let rest := filterLines [] raws
        (line :: rest.1, rest.2)
      else
        let name := ((directiveOf trimmed).map Directive.name).getD ""
        let rest := filterLines [] raws
        ((if ovpnOutDropped name then removedText ++ trimmed else line) :: rest.1,
          name == "auth-user-pass" || rest.2)

/-- Lines with their ends. -/
def unlines (ls : List Text) : Text := ls.flatMap fun l => l ++ ['\n']

/-- The profile without them. -/
def ovpnOutFilterProfile (profile : Text) : Text × Bool :=
  let filtered := filterLines [] (profile.splitOn '\n')
  (unlines filtered.1, filtered.2)

/-! ## Trimming -/

omit [Runtime] in
theorem trim_eq (line : Text) : trim line = (line.dropWhile isSpace).rdropWhile isSpace := by
  rw [trim, trimSpace, String.toList_ofList, String.toList_ofList, List.rdropWhile]

omit [Runtime] in
theorem trim_concat {c : Char} (hc : isSpace c = true) (line : Text) : trim (line ++ [c]) = trim line := by
  rw [trim_eq, trim_eq]
  induction line with
  | nil => simp [hc]
  | cons d line ih =>
      rw [List.cons_append]
      by_cases hd : isSpace d = true
      · rw [List.dropWhile_cons_of_pos hd, List.dropWhile_cons_of_pos hd, ih]
      · rw [List.dropWhile_cons_of_neg hd, List.dropWhile_cons_of_neg hd, ← List.cons_append,
          List.rdropWhile_concat_pos isSpace _ c hc]

omit [Runtime] in
theorem trim_append_spaces {spaces : Text} (h : ∀ c ∈ spaces, isSpace c = true) (line : Text) :
    trim (line ++ spaces) = trim line := by
  induction spaces generalizing line with
  | nil => rw [List.append_nil]
  | cons c spaces ih =>
      rw [List.append_cons, ih fun d hd => h d (List.mem_cons_of_mem _ hd),
        trim_concat (h c List.mem_cons_self)]

omit [Runtime] in
theorem trim_trimReturn (raw : Text) : trim (trimReturn raw) = trim raw := by
  have hspaces : ∀ c ∈ raw.rtakeWhile (· == '\r'), isSpace c = true := by
    intro c hc
    have hreturn := List.mem_rtakeWhile_imp hc
    rw [eq_of_beq hreturn]
    decide
  rw [← trim_append_spaces hspaces (trimReturn raw), trimReturn, List.rdropWhile_append_rtakeWhile]

omit [Runtime] in
/-- A text that begins with something other than space keeps its beginning. -/
theorem trim_cons {c : Char} (hc : isSpace c = false) (line : Text) : ∃ rest, trim (c :: line) = c :: rest := by
  have hne : isSpace c ≠ true := by
    rw [hc]
    exact Bool.false_ne_true
  rw [trim_eq, List.dropWhile_cons_of_neg hne]
  cases hdrop : (c :: line).rdropWhile isSpace with
  | nil => exact absurd (List.rdropWhile_eq_nil_iff.1 hdrop c List.mem_cons_self) hne
  | cons d rest =>
      obtain ⟨more, hmore⟩ := List.rdropWhile_prefix isSpace (c :: line)
      rw [hdrop] at hmore
      rw [(List.cons.inj hmore).1]
      exact ⟨rest, rfl⟩

omit [Runtime] in
theorem trim_sublist (line : Text) : (trim line).Sublist line := by
  rw [trim_eq]
  exact (List.rdropWhile_prefix isSpace _).sublist.trans (List.dropWhile_sublist _)

/-! ## What filtering keeps -/

/-- What is written for a line. -/
def filteredLine (block raw : Text) : Text :=
  let line := trimReturn raw
  let trimmed := trim line
  if block ≠ [] then line
  else if opensBlock trimmed then line
  else if isComment trimmed then line
  else if ovpnOutDropped (((directiveOf trimmed).map Directive.name).getD "") then removedText ++ trimmed
  else line

omit [Runtime] in
/-- A line that opens a block is no comment. -/
theorem isComment_of_opensBlock {line : Text} (h : opensBlock line = true) : isComment line = false := by
  cases line with
  | nil => cases h
  | cons c line =>
      have hc : c = '<' := by
        simp only [opensBlock, hasPrefix, Bool.and_eq_true, List.isPrefixOf] at h
        exact (eq_of_beq h.1.1.1).symm
      subst hc
      rfl

omit [Runtime] in
/-- The line written in place of one that is dropped is a comment. -/
theorem isComment_removed (line : Text) : isComment (trim (removedText ++ line)) = true := by
  obtain ⟨rest, hrest⟩ := trim_cons (c := '#') (by decide) (removedText.tail ++ line)
  have htext : removedText ++ line = '#' :: (removedText.tail ++ line) := rfl
  rw [htext, hrest]
  rfl

/-- A line stays, but for carriage returns, or it is a dropped directive. -/
theorem filteredLine_cases (block raw : Text) :
    filteredLine block raw = trimReturn raw ∧ (∀ d ∈ directiveAt block raw, ovpnOutDropped d.name = false) ∨
      filteredLine block raw = removedText ++ trim raw ∧ block = [] ∧ isComment (trim raw) = false ∧
        opensBlock (trim raw) = false ∧ ∀ d ∈ directiveOf (trim raw), ovpnOutDropped d.name = true := by
  unfold filteredLine directiveAt
  simp only [trim_trimReturn, ne_eq, ite_not]
  split_ifs with hblock hopens hcomment hcomment hdropped
  · simp
  · simp
  · simp
  · refine .inr ⟨rfl, hblock, by simpa using hcomment, by simpa using hopens, fun d hd => ?_⟩
    simpa only [Option.mem_def.1 hd, Option.map_some, Option.getD_some] using hdropped
  · refine .inl ⟨rfl, fun d hd => Bool.eq_false_iff.2 ?_⟩
    simpa only [Option.mem_def.1 hd, Option.map_some, Option.getD_some] using hdropped
  · simp

theorem nextBlock_filteredLine (block raw : Text) :
    nextBlock block (filteredLine block raw) = nextBlock block raw := by
  rcases filteredLine_cases block raw with ⟨hline, -⟩ | ⟨hline, rfl, hcomment, hopens, -⟩
  · rw [hline, nextBlock, nextBlock, trim_trimReturn]
  · simp [hline, nextBlock, isComment_removed, hcomment, hopens]

theorem directiveAt_filteredLine (block raw : Text) :
    directiveAt block (filteredLine block raw) =
      (directiveAt block raw).filter fun d => !ovpnOutDropped d.name := by
  rcases filteredLine_cases block raw with ⟨hline, hkept⟩ | ⟨hline, rfl, hcomment, hopens, hdropped⟩
  · have hsame : directiveAt block (trimReturn raw) = directiveAt block raw := by
      rw [directiveAt, directiveAt, trim_trimReturn]
    rw [hline, hsame]
    cases hd : directiveAt block raw with
    | none => rfl
    | some d => simp [Option.filter, hkept d hd]
  · have hremoved : directiveAt [] (removedText ++ trim raw) = none := by simp [directiveAt, isComment_removed]
    have hraw : directiveAt [] raw = directiveOf (trim raw) := by simp [directiveAt, hcomment, hopens]
    rw [hline, hremoved, hraw]
    cases hd : directiveOf (trim raw) with
    | none => rfl
    | some d => simp [Option.filter, hdropped d hd]

/-- One round of the loop, in the state of the reader. -/
theorem filterLines_cons (block raw : Text) (raws : List Text) :
    filterLines block (raw :: raws) =
      (filteredLine block raw :: (filterLines (nextBlock block raw) raws).1,
        (directiveAt block raw).any (fun d => d.name == "auth-user-pass") ||
          (filterLines (nextBlock block raw) raws).2) := by
  simp only [filterLines, filteredLine, nextBlock, directiveAt, trim_trimReturn]
  by_cases hblock : block ≠ []
  · simp only [if_pos hblock, Option.any_none, Bool.false_or]
  · simp only [if_neg hblock]
    by_cases hopens : opensBlock (trim raw) = true
    · simp only [if_pos hopens, isComment_of_opensBlock hopens, if_neg Bool.false_ne_true,
        Option.any_none, Bool.false_or]
    · simp only [if_neg hopens, ite_self]
      by_cases hcomment : isComment (trim raw) = true
      · simp only [if_pos hcomment, Option.any_none, Bool.false_or]
      · simp only [if_neg hcomment]
        cases directiveOf (trim raw) <;> rfl

theorem filterLines_fst (block : Text) (raws : List Text) :
    (filterLines block raws).1 = profileScanner.rewrite filteredLine block raws := by
  induction raws generalizing block with
  | nil => rfl
  | cons raw raws ih =>
      rw [filterLines_cons, ih]
      rfl

theorem filterLines_snd (block : Text) (raws : List Text) :
    (filterLines block raws).2 = (profileScanner.tokens block raws).any fun d => d.name == "auth-user-pass" := by
  induction raws generalizing block with
  | nil => rfl
  | cons raw raws ih =>
      rw [filterLines_cons, ih, Scanner.tokens, List.any_append]
      change _ = ((directiveAt block raw).toList.any _ || _)
      cases directiveAt block raw <;> simp [profileScanner]

/-- The lines of inline blocks, with those that begin and end them. -/
def inlineScanner : Scanner Text Text Text where
  next := nextBlock
  token block raw := if block ≠ [] ∨ opensBlock (trim raw) = true then some (trimReturn raw) else none

/-- The lines inside blocks. -/
def inlineLines (profile : Text) : List Text := inlineScanner.tokens [] (profile.splitOn '\n')

omit [Runtime] in
theorem trimReturn_trimReturn (raw : Text) : trimReturn (trimReturn raw) = trimReturn raw :=
  List.rdropWhile_idempotent _ raw

theorem inline_filteredLine (block raw : Text) :
    inlineScanner.token block (filteredLine block raw) = inlineScanner.token block raw := by
  rcases filteredLine_cases block raw with ⟨hline, -⟩ | ⟨hline, rfl, -, hopens, -⟩
  · simp only [hline, inlineScanner, trim_trimReturn, trimReturn_trimReturn]
  · have hremoved : opensBlock (trim (removedText ++ trim raw)) ≠ true := by
      intro hopens
      exact Bool.false_ne_true ((isComment_of_opensBlock hopens).symm.trans (isComment_removed _))
    simp [hline, inlineScanner, hremoved, hopens]

/-! ## Lines and text -/

omit [Runtime] in
theorem splitOn_unlines {ls : List Text} (h : ∀ l ∈ ls, '\n' ∉ l) (rest : Text) :
    (unlines ls ++ rest).splitOn '\n' = ls ++ rest.splitOn '\n' := by
  induction ls with
  | nil => rfl
  | cons l ls ih =>
      have hline : unlines (l :: ls) ++ rest = l ++ '\n' :: (unlines ls ++ rest) := by
        simp [unlines]
      rw [hline, List.splitOn_append_cons_self_of_not_mem (h l List.mem_cons_self),
        ih fun l hl => h l (List.mem_cons_of_mem _ hl), List.cons_append]

theorem newline_notMem_filteredLine {block raw : Text} (h : '\n' ∉ raw) : '\n' ∉ filteredLine block raw := by
  rcases filteredLine_cases block raw with ⟨hline, -⟩ | ⟨hline, -⟩
  · exact hline ▸ fun hmem => h ((List.rdropWhile_prefix _ raw).subset hmem)
  · rw [hline, List.mem_append, not_or]
    exact ⟨by decide, fun hmem => h ((trim_sublist raw).subset hmem)⟩

/-- The lines of a filtered profile. -/
theorem filterProfile_lines (profile rest : Text) :
    ((ovpnOutFilterProfile profile).1 ++ rest).splitOn '\n' =
      profileScanner.rewrite filteredLine [] (profile.splitOn '\n') ++ rest.splitOn '\n' := by
  rw [ovpnOutFilterProfile, filterLines_fst, splitOn_unlines]
  intro l hl
  obtain ⟨block, raw, hraw, rfl⟩ := Scanner.mem_rewrite hl
  exact newline_notMem_filteredLine (not_mem_splitOn profile raw hraw)

theorem directiveAt_nil (block : Text) : directiveAt block [] = none := by
  have htrim : trim [] = [] := by decide
  rw [directiveAt, htrim]
  by_cases hblock : block ≠ []
  · rw [if_pos hblock]
  · rw [if_neg hblock]
    rfl

/-- The line end of the last line makes no difference. -/
theorem tokens_concat_nil (block : Text) (ls : List Text) :
    profileScanner.tokens block (ls ++ [[]]) = profileScanner.tokens block ls := by
  have hlast : profileScanner.tokens (profileScanner.after block ls) [[]] = [] := by
    simp [Scanner.tokens, profileScanner, directiveAt_nil]
  rw [Scanner.tokens_append, hlast, List.append_nil]

theorem inline_after (block : Text) (ls : List Text) :
    inlineScanner.after block ls = profileScanner.after block ls := rfl

/-- What is read in a filtered profile: the directives that are not dropped, and whether the tunnel
needs a user name; and its inline blocks are as they were. -/
theorem filterProfile_directives (profile : Text) :
    ovpnOutDirectives (ovpnOutFilterProfile profile).1 =
        (ovpnOutDirectives profile).filter (fun d => !ovpnOutDropped d.name) ∧
      ((ovpnOutFilterProfile profile).2 = true ↔
        ∃ d ∈ ovpnOutDirectives profile, d.name = "auth-user-pass") ∧
      inlineLines (ovpnOutFilterProfile profile).1 = inlineLines (profile ++ ['\n']) := by
  have hlines := filterProfile_lines profile []
  rw [List.append_nil, List.splitOn_nil] at hlines
  refine ⟨?_, ?_, ?_⟩
  · rw [ovpnOutDirectives, hlines, tokens_concat_nil]
    exact Scanner.tokens_rewrite nextBlock_filteredLine directiveAt_filteredLine _ _
  · rw [ovpnOutFilterProfile, filterLines_snd, List.any_eq_true]
    simp only [beq_iff_eq, ovpnOutDirectives]
  · have hafter : profileScanner.after [] (profileScanner.rewrite filteredLine [] (profile.splitOn '\n')) =
        profileScanner.after [] (profile.splitOn '\n') := Scanner.after_rewrite nextBlock_filteredLine _ _
    have hinline : inlineScanner.tokens [] (profileScanner.rewrite filteredLine [] (profile.splitOn '\n')) =
        inlineScanner.tokens [] (profile.splitOn '\n') :=
      Scanner.tokens_rewrite_other profileScanner inlineScanner rfl nextBlock_filteredLine inline_filteredLine _ _
    rw [inlineLines, inlineLines, hlines, List.splitOn_append_cons_self, List.splitOn_nil, Scanner.tokens_append,
      Scanner.tokens_append, inline_after, inline_after, hafter, hinline]

end

end Simorgh.Vpn.OvpnOut
