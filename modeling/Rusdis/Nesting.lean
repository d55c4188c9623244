import Rusdis.Parser
/-!
# Nesting — how deep `parse` calls itself

`parse_array` calls `parse` on its groups, which are put together from lines of the text with a CRLF after each, though
the text may not end in one.  The first line pays for it: a group is two bytes shorter than the text
(`byteLen_group`), so calls nest at most half as deep as the text is long.
-/
namespace Rusdis

open Fallible Utf8

/-! ## The groups are shorter -/

theorem joinLines_tail_byteLen {s first : List Char} {lines : List (List Char)} (h : splitCrlf s = first :: lines) :
    byteLen (Lines.joinLines '\r' '\n' lines) + byteLen first = byteLen s := by
  have hj := congrArg byteLen (Lines.joinLines_split '\r' '\n' s)
  have hr : '\r'.utf8Size = 1 := rfl
  have hn : '\n'.utf8Size = 1 := rfl
  rw [show Lines.split '\r' '\n' s = first :: lines from h, Lines.joinLines_cons] at hj
  simp only [byteLen_append, byteLen_cons, byteLen_nil, hr, hn] at hj
  omega

/-- **All groups together are no longer than what follows the first line**, one CRLF more for the text's last line. -/
theorem byteLen_groups {s : List Char} {groups : List (List Char)} (h : arrayGroups s = .ok (some groups)) :
    ∃ first lines, splitCrlf s = first :: lines ∧ 2 ≤ byteLen first ∧
      (groups.map byteLen).sum + byteLen first ≤ byteLen s := by
  obtain ⟨c, lengthStr, lines, left, hsplit, hleft, -, hgs⟩ := arrayGroups_eq_some h
  have hpre := byteLen_le_of_prefix (parseArrayLoop_flatten _ _ _ _ _ hgs)
  have hlen := joinLines_tail_byteLen hsplit
  rw [byteLen_flatten, List.nil_append] at hpre
  have hfirst : 2 ≤ byteLen (c :: lengthStr) := by
    cases lengthStr with
    | nil => cases hleft
    | cons d ds =>
      have hc := Char.utf8Size_pos c
      have hd := Char.utf8Size_pos d
      rw [byteLen_cons, byteLen_cons]
      omega
  exact ⟨_, lines, hsplit, hfirst, by omega⟩

theorem byteLen_group {s g : List Char} {groups : List (List Char)} (h : arrayGroups s = .ok (some groups))
    (hg : g ∈ groups) : byteLen g + 2 ≤ byteLen s := by
  obtain ⟨first, lines, -, hfirst, hsum⟩ := byteLen_groups h
  have hle := byteLen_le_sum hg
  omega

/-! ## Parsing with a bound on the nesting -/

/-- The calls on the groups, one after another up to the first that fails; none where a call nests too deep. -/
def eachGroup (call : List Char → Option (Except (Fault ParserError) Value)) :
    List (List Char) → Option (Except (Fault ParserError) (List Value))
  | []      => some (.ok [])
  | p :: ps =>
    match call p with
    | none            => none
    | some (.error e) => some (.error e)
    | some (.ok v)    => (eachGroup call ps).map (fun vs => do return v :: (← vs))

/-- The body of `parse`, with the calls on the groups given. -/
def parseBody (call : List Char → Option (Except (Fault ParserError) Value)) (protocol : List Char) :
    Option (Except (Fault ParserError) Value) :=
  match protocol.head? with
  | none => some (.error (.err (.invalidProtocol "No leading symbol")))
  | some symbol =>
    if symbol = '+' then some (parseSimpleString protocol)
    else if symbol = ':' then some (parseInteger protocol)
    else if symbol = '$' then some (parseBulkString protocol)
    else if symbol = '*' then
      match arrayGroups protocol with
      | .error e          => some (.error e)
      | .ok none          => some (.ok .null)
      | .ok (some groups) => (eachGroup call groups).map (fun vs => do return .array (← vs))
    else some (.error (.err (.invalidProtocol "Invalid symbol")))

/-- `parse` with at most `depth` calls inside one another; none where it would nest deeper. -/
def parseWithin : Nat → List Char → Option (Except (Fault ParserError) Value)
  | 0         => parseBody (fun _ => none)
  | depth + 1 => parseBody (parseWithin depth)

theorem eachGroup_eq {call : List Char → Option (Except (Fault ParserError) Value)} :
    ∀ (groups : List (List Char)), (∀ g ∈ groups, call g = some (parse g)) →
      eachGroup call groups = some (groups.mapM parse)
  | [], _ => rfl
  | g :: gs, h => by
    rw [eachGroup, h g (by simp), List.mapM_cons]
    cases parse g with
    | error e => rfl
    | ok v =>
      simp only [eachGroup_eq gs (fun x hx => h x (by simp [hx])), Option.map_some, ok_bind, pure_eq_ok]

/-- **The body is `parse`** where the calls are. -/
theorem parseBody_eq {call : List Char → Option (Except (Fault ParserError) Value)} (s : List Char)
    (h : ∀ groups, arrayGroups s = .ok (some groups) → ∀ g ∈ groups, call g = some (parse g)) :
    parseBody call s = some (parse s) := by
  cases s with
  | nil => rw [parse_nil]; rfl
  | cons c s =>
    unfold parseBody
    rw [List.head?_cons]
    dsimp only
    by_cases h1 : c = '+'
    · subst h1; rw [parse_plus, if_pos rfl]
    by_cases h2 : c = ':'
    · subst h2; rw [parse_colon, if_neg h1, if_pos rfl]
    by_cases h3 : c = '$'
    · subst h3; rw [parse_dollar, if_neg h1, if_neg h2, if_pos rfl]
    by_cases h4 : c = '*'
    · subst h4
      rw [parse_star, parseArray, if_neg h1, if_neg h2, if_neg h3, if_pos rfl]
      cases hgroups : arrayGroups ('*' :: s) with
      | error e => rfl
      | ok o =>
        cases o with
        | none => rfl
        | some groups =>
          dsimp only
          rw [eachGroup_eq groups (h groups hgroups), ok_bind]
          rfl
    · rw [parse_other h1 h2 h3 h4, if_neg h1, if_neg h2, if_neg h3, if_neg h4]

theorem parseWithin_eq : ∀ (depth : Nat) (s : List Char), byteLen s ≤ 2 * depth + 1 →
    parseWithin depth s = some (parse s)
  | 0, s, hs => parseBody_eq s fun groups hgroups g hg => by
    have := byteLen_group hgroups hg
    omega
  | depth + 1, s, hs => parseBody_eq s fun groups hgroups g hg => by
    have := byteLen_group hgroups hg
    exact parseWithin_eq depth g (by omega)

/-- **The recursion of `parse` ends on every text.** Every group of an array is at least two bytes shorter than its
text, all of them together no longer than what the first line leaves, and calls nest at most half as deep as the text
is long. -/
theorem parse_nesting :
    (∀ t groups, arrayGroups ('*' :: t) = .ok (some groups) →
      (∀ g ∈ groups, byteLen g + 2 ≤ byteLen ('*' :: t)) ∧
      ∀ first lines, splitCrlf ('*' :: t) = first :: lines →
        (groups.map byteLen).sum + byteLen first ≤ byteLen ('*' :: t)) ∧
    ∀ s, parseWithin (byteLen s / 2) s = some (parse s) := by
  refine ⟨fun t groups hgroups => ⟨fun g hg => byteLen_group hgroups hg, fun first lines hsplit => ?_⟩, fun s =>
    parseWithin_eq _ s (by omega)⟩
  obtain ⟨first', lines', hsplit', -, hsum⟩ := byteLen_groups hgroups
  rw [hsplit] at hsplit'
  obtain ⟨rfl, -⟩ := List.cons.inj hsplit'
  exact hsum

/-- The text ends without a CRLF, its only group with one. -/
theorem parse_nesting_open :
    (∀ g ∈ [":7\r\n".toList], byteLen g + 2 ≤ byteLen "*1\r\n:7".toList) ∧
    ([":7\r\n".toList].map byteLen).sum + byteLen "*1".toList ≤ byteLen "*1\r\n:7".toList := by
  have hgroups : arrayGroups ('*' :: "1\r\n:7".toList) = .ok (some [":7\r\n".toList]) := by decide +kernel
  exact ⟨(parse_nesting.1 _ _ hgroups).1, (parse_nesting.1 _ _ hgroups).2 "*1".toList [":7".toList] (by decide)⟩

end Rusdis
