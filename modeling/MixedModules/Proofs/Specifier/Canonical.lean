import Mathlib.Data.List.DropRight
import MixedModules.Proofs.Specifier.Segments
import MixedModules.Specifier.Lexical

/-! Identities that are resolved by names alone.

A specifier that is written as a path is followed from the directory of the module that asks,
and its identity is the place it leads to, so all spellings of a path have one identity. What
is refused is to climb too far. Below the root that is to climb above it. A path that starts
at no root is refused as soon as it climbs back to where it started. -/
namespace MixedModules.Specifier

namespace Path

variable {path base : List Char} {ss : List (List Char)} {segment : List Char}

/-- The segments of a path that do not stay put. -/
def leading (path : List Char) : List (List Char) := (segments path).filter fun s => !staysPut s

theorem steps_eq (path : List Char) : steps path = (leading path).filterMap stepOf? := by
  unfold steps leading
  induction segments path with
  | nil => rfl
  | cons segment rest ih =>
    cases puts : staysPut segment <;> simp [List.filterMap_cons, stepOf?, puts, ih]

theorem not_mem_of_mem_leading (member : segment ∈ leading path) : '/' ∉ segment :=
  not_mem_of_mem_segments (List.mem_of_mem_filter member)

theorem leading_ofSegments (whole : ∀ segment ∈ ss, '/' ∉ segment) :
    leading (ofSegments ss) = ss.filter fun s => !staysPut s := by
  cases ss with
  | nil => rfl
  | cons first rest => rw [leading, segments_ofSegments (List.cons_ne_nil _ _) whole]

/-! ## The parent of a path -/

theorem trimEnd_concat (ss : List (List Char)) (last : List Char) :
    trimEnd (ss ++ [last]) = if staysPut last then trimEnd ss else ss ++ [last] :=
  List.rdropWhile_concat staysPut ss last

theorem filter_trimEnd (ss : List (List Char)) :
    (trimEnd ss).filter (fun s => !staysPut s) = ss.filter fun s => !staysPut s := by
  induction ss using List.reverseRecOn with
  | nil => rfl
  | append_singleton ss last ih =>
    rw [trimEnd_concat]
    split
    · next puts => simp [ih, puts]
    · rfl

/-- Without what stays put at the end, the last segment is the last that leads anywhere. -/
theorem filter_dropLast_trimEnd (ss : List (List Char)) :
    ((trimEnd ss).dropLast).filter (fun s => !staysPut s) =
      (ss.filter fun s => !staysPut s).dropLast := by
  induction ss using List.reverseRecOn with
  | nil => rfl
  | append_singleton ss last ih =>
    rw [trimEnd_concat]
    split
    · next puts => simp [ih, puts]
    · next goes => simp [goes]

/-- What is kept of segments for their parent. -/
private theorem filter_kept (ss : List (List Char)) :
    (trimEnd (trimEnd ss).dropLast).filter (fun s => !staysPut s) =
      (ss.filter fun s => !staysPut s).dropLast := by
  rw [filter_trimEnd, filter_dropLast_trimEnd]

private theorem kept_front (ss : List (List Char)) : trimEnd (trimEnd ss).dropLast <+: ss :=
  (List.rdropWhile_prefix staysPut _).trans
    ((List.dropLast_prefix _).trans (List.rdropWhile_prefix staysPut _))

private theorem filter_of_trimEnd (none : trimEnd ss = []) :
    (ss.filter fun s => !staysPut s) = [] := by
  rw [← filter_trimEnd, none]
  rfl

theorem isAbsolute_cons {c : Char} {rest : List Char} : isAbsolute (c :: rest) = true ↔ c = '/' := by
  simp [isAbsolute]

/-- A slash in front leads nowhere. -/
theorem leading_rooted (path : List Char) : leading ('/' :: path) = leading path := by
  rw [leading, segments, if_pos rfl, List.filter_cons_of_neg (by simp [staysPut]), leading]

theorem isAbsolute_ofSegments {first : List Char} (named : first ≠ []) (whole : '/' ∉ first) :
    isAbsolute (ofSegments (first :: ss)) = false := by
  obtain ⟨c, rest, rfl⟩ := List.exists_cons_of_ne_nil named
  have apart : c ≠ '/' := fun same => whole (by simp [same])
  cases ss <;> simp [ofSegments, isAbsolute, apart]

/-- The parent of a path from the root starts at the root. -/
theorem parent_rooted (path : List Char) :
    isAbsolute ((parent? ('/' :: path)).getD ['/']) = true ∧
      leading ((parent? ('/' :: path)).getD ['/']) = (leading ('/' :: path)).dropLast := by
  have parts : segments ('/' :: path) = [] :: segments path := by rw [segments, if_pos rfl]
  unfold parent?
  rw [leading_rooted, leading.eq_def path, parts]
  simp only [segments_ne_nil, ne_eq, not_false_eq_true, and_self, if_true]
  split
  · next none =>
    rw [filter_of_trimEnd none]
    exact ⟨rfl, rfl⟩
  rw [← filter_kept]
  split
  · next none =>
    rw [none]
    exact ⟨rfl, rfl⟩
  · next kept =>
    obtain ⟨first, rest, same⟩ := List.exists_cons_of_ne_nil kept
    refine ⟨by rw [same]; rfl, ?_⟩
    rw [Option.getD_some, leading_ofSegments]
    · rfl
    · rintro segment (_ | ⟨_, member⟩)
      · simp
      · exact not_mem_of_mem_segments ((kept_front _).subset member)

/-- The parent of another path does not. -/
theorem parent_relative {c : Char} (apart : c ≠ '/') (rest : List Char) :
    isAbsolute ((parent? (c :: rest)).getD ['/']) = false ∧
      leading ((parent? (c :: rest)).getD ['/']) = (leading (c :: rest)).dropLast := by
  obtain ⟨head, tail, parts⟩ : ∃ head tail, segments (c :: rest) = (c :: head) :: tail := by
    rw [segments, if_neg apart]
    split
    · exact ⟨[], [], rfl⟩
    · exact ⟨_, _, rfl⟩
  have whole : ∀ segment ∈ (c :: head) :: tail, '/' ∉ segment := fun segment member =>
    not_mem_of_mem_segments (parts ▸ member)
  unfold parent?
  rw [leading.eq_def (c :: rest), parts]
  simp only [List.cons_ne_nil, false_and, if_false]
  split
  · next dot =>
    rw [dot] at whole ⊢
    rw [List.filter_cons_of_neg (by simp [staysPut])]
    split
    · next none =>
      rw [filter_of_trimEnd none]
      exact ⟨rfl, rfl⟩
    · refine ⟨isAbsolute_ofSegments (by simp) (by simp), ?_⟩
      rw [Option.getD_some, leading_ofSegments, List.filter_cons_of_neg (by simp [staysPut]), filter_kept]
      rintro segment (_ | ⟨_, member⟩)
      · simp
      · exact whole segment (List.mem_cons_of_mem _ ((kept_front _).subset member))
  · next named =>
    have goes : staysPut (c :: head) = false := by
      rw [Bool.eq_false_iff, ne_eq, staysPut_iff]
      exact not_or.mpr ⟨List.cons_ne_nil c head, named⟩
    split
    · next none =>
      have empty := filter_of_trimEnd none
      simp [goes] at empty
    · have kept := kept_front ((c :: head) :: tail)
      rw [Option.getD_some, leading_ofSegments fun segment member =>
        whole segment (kept.subset member), filter_kept]
      refine ⟨?_, rfl⟩
      rcases List.prefix_cons_iff.mp kept with none | ⟨rest, same, _⟩
      · rw [none]
        rfl
      · rw [same]
        exact isAbsolute_ofSegments (by simp) (whole _ (by simp))

/-! ## Joined paths -/

theorem leading_join {path : List Char} (relative : isAbsolute path = false) (base : List Char) :
    leading (join base path) = leading base ++ leading path := by
  unfold join leading
  rw [relative, if_neg Bool.false_ne_true]
  split
  · next ends =>
    rcases List.eq_nil_or_concat base with rfl | ⟨front, last, rfl⟩
    · rfl
    · have slash : last = '/' := by simpa using ends
      subst slash
      simp [segments_append, segments, staysPut]
  · simp [segments_append]

theorem join_root (path : List Char) :
    isAbsolute (join ['/'] path) = true ∧ leading (join ['/'] path) = leading path := by
  unfold join
  split
  · next rooted => exact ⟨rooted, rfl⟩
  · exact ⟨rfl, leading_rooted path⟩

theorem isAbsolute_join {path : List Char} (relative : isAbsolute path = false) (base : List Char) :
    isAbsolute (join base path) = isAbsolute base := by
  unfold join
  rw [relative, if_neg Bool.false_ne_true]
  cases base with
  | nil => exact relative
  | cons c rest => split <;> rfl

end Path

namespace Lexical

open MixedModules.Specifier.Path

variable {aliases : Scope String} {specifier : String} {referrer : Option String} {absolute : Bool}
  {stack : List (List Char)} {ss : List (List Char)}

/-! ## Walks -/

/-- How many names must be left for two dots to be refused: none below the root, and one where
a path starts at no root. -/
def spare (absolute : Bool) : Nat := if absolute then 0 else 1

theorem walk_up (steps : List Step) : walk absolute (.up :: steps) stack =
    if stack.length ≤ spare absolute then none else walk absolute steps stack.tail := by
  cases absolute <;> rcases stack with _ | ⟨top, _ | ⟨next, below⟩⟩ <;> simp [walk, spare]

/-- A walk is refused if it climbs too far. Any other ends where its segments lead. -/
theorem walk_eq (whole : ∀ segment ∈ ss, '/' ∉ segment) :
    (Climbs (spare absolute) stack.reverse ss → walk absolute (ss.filterMap stepOf?) stack = none) ∧
      (¬ Climbs (spare absolute) stack.reverse ss → walk absolute (ss.filterMap stepOf?) stack =
        some (settle stack.reverse ss).reverse) := by
  induction ss generalizing stack with
  | nil => exact ⟨fun climbs => absurd climbs not_climbs_nil, fun _ => by simp [walk]⟩
  | cons segment rest ih =>
    have whole' : ∀ later ∈ rest, '/' ∉ later := fun later member => whole later (by simp [member])
    rw [climbs_cons, settle_cons]
    rcases segment_cases (whole segment (by simp)) with puts | rfl | proper
    · have step : stepOf? segment = none := by rw [stepOf?, if_pos (staysPut_iff.mpr puts)]
      have other : segment ≠ ['.', '.'] := by rcases puts with rfl | rfl <;> simp
      rw [follow_of_staysPut puts, List.filterMap_cons_none step]
      simpa [other] using ih whole'
    · have step : stepOf? ['.', '.'] = some .up := rfl
      rw [follow_up, List.filterMap_cons_some step, walk_up, List.dropLast_reverse]
      by_cases few : stack.length ≤ spare absolute
      · simp [few]
      · simpa [few] using ih whole'
    · have step : stepOf? segment = some (.name segment) := by
        rw [stepOf?, if_neg (staysPut_iff.not.mpr (not_or.mpr ⟨proper.filled, proper.dot⟩)),
          if_neg proper.dots]
      rw [follow_name proper, List.filterMap_cons_some step, ← List.reverse_cons]
      have onward := @ih (segment :: stack) whole'
      simpa only [proper.dots, walk, false_and, false_or] using onward

/-! ## Specifiers that are written as paths -/

/-- A specifier that starts with a slash, with one dot and a slash or with two dots and a
slash. -/
def Written (specifier : String) : Prop :=
  ['/'] <+: specifier.toList ∨ ['.', '/'] <+: specifier.toList ∨ ['.', '.', '/'] <+: specifier.toList

/-- The names and dots that lead to the directory of a module, from its root. -/
def directory (referrer : Option String) : List (List Char) :=
  match referrer with
  | some identity => (leading identity.toList).dropLast
  | none => []

/-- The segments that a specifier goes through: its own, from the root or from the directory of
the module that asks. -/
def route (specifier : String) (referrer : Option String) : List (List Char) :=
  if isAbsolute specifier.toList then segments specifier.toList
  else directory referrer ++ segments specifier.toList

/-- Whether a module's directory is below the root. It is for a module without a directory, and
where nobody asks. -/
def belowRoot (referrer : Option String) : Bool :=
  match referrer with
  | some identity => identity.toList.isEmpty || isAbsolute identity.toList
  | none => true

/-- Whether a specifier is followed from the root. -/
def fromRoot (specifier : String) (referrer : Option String) : Bool :=
  isAbsolute specifier.toList || belowRoot referrer

theorem directoryOf_spec (referrer : Option String) :
    leading (directoryOf referrer) = directory referrer ∧
      isAbsolute (directoryOf referrer) = belowRoot referrer := by
  cases referrer with
  | none => exact ⟨rfl, rfl⟩
  | some identity =>
    have same : directoryOf (some identity) = (parent? identity.toList).getD ['/'] := rfl
    rw [same, directory, belowRoot]
    cases identity.toList with
    | nil => exact ⟨rfl, rfl⟩
    | cons c rest =>
      by_cases rooted : c = '/'
      · subst rooted
        obtain ⟨starts, leads⟩ := parent_rooted rest
        exact ⟨leads, starts⟩
      · obtain ⟨starts, leads⟩ := parent_relative rooted rest
        exact ⟨leads, starts.trans (by simp [isAbsolute, rooted])⟩

/-! ## What a path resolves to -/

/-- The result for segments that are followed from the top: a refusal of `text` if they climb too
far, and else the place that they lead to. -/
def Ends (absolute : Bool) (ss : List (List Char)) (text : String)
    (result : Except ResolveError String) : Prop :=
  (Climbs (spare absolute) [] ss → result = .error (.outsideRoot text)) ∧
    (¬ Climbs (spare absolute) [] ss →
      result = .ok (String.ofList (place absolute (settle [] ss).reverse)))

theorem ends_walkFrom {base : List Char} (whole : ∀ segment ∈ ss, '/' ∉ segment)
    (path : steps (join base specifier.toList) = ss.filterMap stepOf?)
    (starts : isAbsolute (join base specifier.toList) = absolute) :
    Ends absolute ss specifier (walkFrom base specifier) := by
  obtain ⟨refused, walked⟩ := @walk_eq absolute [] ss whole
  unfold walkFrom
  simp only [path, starts]
  refine ⟨fun climbs => ?_, fun stays => ?_⟩
  · rw [refused climbs]
  · rw [walked stays]
    rfl

theorem whole_route (specifier : String) (referrer : Option String) :
    ∀ segment ∈ route specifier referrer, '/' ∉ segment := by
  intro segment member
  unfold route at member
  split at member
  · exact not_mem_of_mem_segments member
  · rcases List.mem_append.mp member with before | after
    · unfold directory at before
      split at before
      · exact not_mem_of_mem_leading (List.dropLast_subset _ before)
      · cases before
    · exact not_mem_of_mem_segments after

/-- The text of a refusal: a specifier that starts with a slash is shown without it. -/
def refusedText (specifier : String) : String :=
  if isAbsolute specifier.toList then String.ofList specifier.toList.tail else specifier

theorem not_isUrl_of_head {c : Char} {rest : List Char} (text : specifier.toList = c :: rest)
    (apart : c ≠ 'h') : isUrl specifier = false := by
  have other (front : String) (back : List Char) (starts : front.toList = 'h' :: back) :
      specifier.startsWith front = false := by
    rw [Bool.eq_false_iff, ne_eq, String.startsWith_string_iff, text, starts, List.cons_prefix_cons]
    exact fun same => apart same.1.symm
  rw [isUrl, other "http://" "ttp://".toList rfl, other "https://" "ttps://".toList rfl]
  rfl

private theorem resolver_rooted (plain : aliases.get? specifier = none)
    (rooted : isAbsolute specifier.toList = true) : Ends true (route specifier referrer)
      (refusedText specifier) (resolver aliases specifier referrer) := by
  obtain ⟨rest, text⟩ : ∃ rest, specifier.toList = '/' :: rest := by
    cases text : specifier.toList with
    | nil => simp [text, isAbsolute] at rooted
    | cons c rest =>
      rw [text, isAbsolute_cons] at rooted
      exact ⟨rest, by rw [rooted]⟩
  have resolved : resolver aliases specifier referrer = walkFrom ['/'] (String.ofList rest) := by
    unfold resolver
    simp only [plain, not_isUrl_of_head text (by decide), text, Bool.false_eq_true, if_false]
  have shown : refusedText specifier = String.ofList rest := by
    rw [refusedText, if_pos rooted, text, List.tail_cons]
  rw [resolved, shown]
  obtain ⟨starts, leads⟩ := join_root rest
  apply ends_walkFrom (whole_route specifier referrer)
  · rw [String.toList_ofList, steps_eq, leads, ← leading_rooted, ← text, ← steps_eq, route,
      if_pos rooted, steps]
  · rwa [String.toList_ofList]

private theorem resolver_relative (plain : aliases.get? specifier = none)
    (written : Written specifier) (relative : isAbsolute specifier.toList = false) :
    Ends (belowRoot referrer) (route specifier referrer) (refusedText specifier)
      (resolver aliases specifier referrer) := by
  have dotted : ['.', '/'] <+: specifier.toList ∨ ['.', '.', '/'] <+: specifier.toList := by
    refine written.resolve_left fun ⟨rest, text⟩ => ?_
    simp [← text, isAbsolute] at relative
  obtain ⟨rest, text⟩ : ∃ rest, specifier.toList = '.' :: rest := by
    rcases dotted with ⟨rest, text⟩ | ⟨rest, text⟩ <;> exact ⟨_, text.symm⟩
  have asks : isRelative specifier = true := by
    simpa [isRelative, String.startsWith_string_iff] using dotted
  have resolved : resolver aliases specifier referrer = walkFrom (directoryOf referrer) specifier := by
    unfold resolver
    simp only [plain, not_isUrl_of_head text (by decide), text, asks, Bool.false_eq_true, if_false,
      if_true]
    rfl
  have shown : refusedText specifier = specifier := by
    rw [refusedText, if_neg (by simp [relative])]
  obtain ⟨leads, starts⟩ := directoryOf_spec referrer
  rw [resolved, shown]
  apply ends_walkFrom (whole_route specifier referrer)
  · rw [steps_eq, leading_join relative, leads, List.filterMap_append, ← steps_eq, route,
      if_neg (by simp [relative]), List.filterMap_append, steps]
  · rw [isAbsolute_join relative, starts]

/-- A specifier that is written as a path ends where its route leads. -/
theorem ends_resolver (plain : aliases.get? specifier = none) (written : Written specifier)
    (referrer : Option String) : Ends (fromRoot specifier referrer) (route specifier referrer)
      (refusedText specifier) (resolver aliases specifier referrer) := by
  cases rooted : isAbsolute specifier.toList with
  | true =>
    rw [fromRoot, rooted, Bool.true_or]
    exact resolver_rooted plain rooted
  | false =>
    rw [fromRoot, rooted, Bool.false_or]
    exact resolver_relative plain written rooted

/-! ## Identities -/

/-- The identity of a place below the root. -/
def identityOf (names : List (List Char)) : String := String.ofList ('/' :: ofSegments names)

section Identities

variable {names : List (List Char)} {identity : String}

theorem eq_identityOf_iff :
    identity = identityOf names ↔ identity.toList = '/' :: ['/'].intercalate names := by
  rw [identityOf, ← String.toList_inj, String.toList_ofList, ofSegments_eq_intercalate]

/-- Names that are read again from an identity are the names of its place. -/
theorem route_identityOf (proper : ∀ name ∈ names, Proper name) (referrer : Option String) :
    settle [] (route (identityOf names) referrer) = names ∧
      ∀ spare, ¬ Climbs spare [] (route (identityOf names) referrer) := by
  have rooted : isAbsolute (identityOf names).toList = true := by
    rw [identityOf, String.toList_ofList]
    rfl
  rw [route, if_pos rooted, identityOf, String.toList_ofList, segments, if_pos rfl]
  cases names with
  | nil => exact ⟨rfl, fun spare => by simp [climbs_cons, ofSegments, segments, follow, not_climbs_nil]⟩
  | cons first rest =>
    have again : segments (ofSegments (first :: rest)) = first :: rest :=
      segments_ofSegments (List.cons_ne_nil _ _) fun name member => (proper name member).whole
    rw [again, settle_cons, follow_of_staysPut (.inl rfl), settle_of_proper proper]
    refine ⟨rfl, fun spare => ?_⟩
    rw [climbs_cons, follow_of_staysPut (.inl rfl)]
    simpa using not_climbs_of_proper proper

theorem identityOf_injective {names' : List (List Char)} (proper : ∀ name ∈ names, Proper name)
    (proper' : ∀ name ∈ names', Proper name) :
    identityOf names' = identityOf names ↔ names' = names := by
  refine ⟨fun same => ?_, fun same => by rw [same]⟩
  rw [← (route_identityOf proper none).1, ← same, (route_identityOf proper' none).1]

end Identities

/-- A specifier that is followed from the root has the place it leads to as its identity,
unless it climbs above the root. -/
theorem resolver_eq_ok_iff (plain : aliases.get? specifier = none) (written : Written specifier)
    (root : fromRoot specifier referrer = true) (identity : String) :
    resolver aliases specifier referrer = .ok identity ↔
      ¬ Climbs 0 [] (route specifier referrer) ∧
        identity = identityOf (settle [] (route specifier referrer)) := by
  have ends := ends_resolver plain written referrer
  rw [root] at ends
  have result : String.ofList (place true (settle [] (route specifier referrer)).reverse) =
      identityOf (settle [] (route specifier referrer)) := by
    rw [place, List.reverse_reverse]
    rfl
  by_cases climbs : Climbs 0 [] (route specifier referrer)
  · simp [ends.1 climbs, climbs]
  · rw [ends.2 climbs, result, Except.ok.injEq]
    exact ⟨fun same => ⟨climbs, same.symm⟩, fun parts => parts.2.symm⟩

/-- The names of every place that a route leads to are proper. -/
theorem proper_route (specifier : String) (referrer : Option String) :
    ∀ name ∈ settle [] (route specifier referrer), Proper name :=
  proper_of_mem_settle (by simp) (whole_route specifier referrer)

/-- Below the root, the identity of a specifier is a slash and the names that are left of its
route with slashes between them. There are no dots and no empty parts in it, it is its own
identity wherever it is asked for, and two specifiers have one identity exactly if their routes
are spellings of the same path. -/
theorem resolve_canonical (plain : aliases.get? specifier = none) (written : Written specifier)
    (below : ∀ asking, referrer = some asking → isAbsolute asking.toList = true) :
    (∀ identity, resolver aliases specifier referrer = .ok identity ↔
      ¬ Climbs 0 [] (route specifier referrer) ∧
        identity.toList = '/' :: ['/'].intercalate (settle [] (route specifier referrer))) ∧
    ∀ identity, resolver aliases specifier referrer = .ok identity →
      (identity = "/" ∨ ∀ part ∈ segments identity.toList.tail, Proper part) ∧
      (aliases.get? identity = none →
        ∀ anyone, resolver aliases identity anyone = .ok identity) ∧
      ∀ specifier' referrer' identity', aliases.get? specifier' = none → Written specifier' →
        (∀ asking, referrer' = some asking → isAbsolute asking.toList = true) →
        resolver aliases specifier' referrer' = .ok identity' →
          (identity' = identity ↔
            Respelled (route specifier' referrer') (route specifier referrer)) := by
  have root (specifier : String) {referrer : Option String}
      (below : ∀ asking, referrer = some asking → isAbsolute asking.toList = true) :
      fromRoot specifier referrer = true := by
    cases referrer with
    | none => simp [fromRoot, belowRoot]
    | some asking => simp [fromRoot, belowRoot, below asking rfl]
  have names := proper_route specifier referrer
  refine ⟨fun identity => ?_, fun identity resolved => ?_⟩
  · rw [resolver_eq_ok_iff plain written (root specifier below), eq_identityOf_iff]
  obtain ⟨stays, rfl⟩ := (resolver_eq_ok_iff plain written (root specifier below) identity).mp resolved
  refine ⟨?_, fun unnamed anyone => ?_, fun specifier' referrer' identity' plain' written' below' resolved' => ?_⟩
  · generalize settle [] (route specifier referrer) = place at names
    cases place with
    | nil => exact .inl rfl
    | cons first rest =>
      right
      rw [identityOf, String.toList_ofList, List.tail_cons,
        segments_ofSegments (List.cons_ne_nil _ _) fun name member => (names name member).whole]
      exact names
  · obtain ⟨again, stays'⟩ := route_identityOf names anyone
    have starts : ['/'] <+: (identityOf (settle [] (route specifier referrer))).toList := by
      simp [identityOf]
    rw [resolver_eq_ok_iff unnamed (.inl starts) (by simp [fromRoot, identityOf, isAbsolute]), again]
    exact ⟨stays' 0, rfl⟩
  · obtain ⟨stays', rfl⟩ :=
      (resolver_eq_ok_iff plain' written' (root specifier' below') identity').mp resolved'
    rw [identityOf_injective names (proper_route specifier' referrer'),
      settle_eq_iff (whole_route specifier' referrer') (whole_route specifier referrer) stays' stays]

/-- A detour of dots and repeated slashes, from a module whose own identity has dots in it, is
another spelling of a short way. -/
theorem resolve_canonical_detour :
    resolver .empty ".././/lib//x/../util.wasm" (some "/app/./src//main.js") =
      .ok "/app/lib/util.wasm" ∧
    Respelled (route "./util.wasm" (some "/app/lib/b.js"))
      (route ".././/lib//x/../util.wasm" (some "/app/./src//main.js")) := by
  have written : Written ".././/lib//x/../util.wasm" := .inr (.inr (by decide))
  have written' : Written "./util.wasm" := .inr (.inl (by decide))
  have below : ∀ asking, some "/app/./src//main.js" = some asking →
      isAbsolute asking.toList = true := by
    rintro _ ⟨⟩
    decide
  have below' : ∀ asking, some "/app/lib/b.js" = some asking → isAbsolute asking.toList = true := by
    rintro _ ⟨⟩
    decide
  have plain : (Scope.empty : Scope String).get? ".././/lib//x/../util.wasm" = none := rfl
  obtain ⟨resolves, laws⟩ := resolve_canonical plain written below
  have resolved := (resolves "/app/lib/util.wasm").mpr ⟨by decide, by decide⟩
  exact ⟨resolved, ((laws _ resolved).2.2 _ _ _ rfl written' below' (by decide +kernel)).mp rfl⟩

/-- A specifier that is written as a path is refused exactly if its route climbs too far: above
the root where it is followed from the root, and back to where it started where it is not. Any
other has the place that it leads to as its identity. -/
theorem resolve_refuses (plain : aliases.get? specifier = none) (written : Written specifier)
    (referrer : Option String) :
    ((∃ text, resolver aliases specifier referrer = .error (.outsideRoot text)) ↔
      Climbs (spare (fromRoot specifier referrer)) [] (route specifier referrer)) ∧
    (¬ Climbs (spare (fromRoot specifier referrer)) [] (route specifier referrer) →
      ∃ identity, resolver aliases specifier referrer = .ok identity ∧
        identity.toList = (if fromRoot specifier referrer then ['/'] else []) ++
          ['/'].intercalate (settle [] (route specifier referrer))) := by
  obtain ⟨refused, resolved⟩ := ends_resolver plain written referrer
  refine ⟨⟨fun ⟨text, fails⟩ => ?_, fun climbs => ⟨_, refused climbs⟩⟩, fun stays => ?_⟩
  · by_contra stays
    rw [resolved stays] at fails
    cases fails
  · refine ⟨_, resolved stays, ?_⟩
    rw [String.toList_ofList, place, List.reverse_reverse, ofSegments_eq_intercalate]

/-- A module that is below no root may go up one directory, but not back to where it started. -/
theorem resolve_refuses_back :
    (∃ identity, resolver .empty "../b.js" (some "lib/app/a.js") = .ok identity) ∧
      ∃ text, resolver .empty "../../b.js" (some "lib/app/a.js") = .error (.outsideRoot text) := by
  have plain (specifier : String) : (Scope.empty : Scope String).get? specifier = none := rfl
  have near := resolve_refuses (plain "../b.js") (.inr (.inr (by decide))) (some "lib/app/a.js")
  have far := resolve_refuses (plain "../../b.js") (.inr (.inr (by decide))) (some "lib/app/a.js")
  obtain ⟨identity, resolved, _⟩ := near.2 (by decide)
  exact ⟨⟨identity, resolved⟩, far.1.mpr (by decide)⟩

/-- To climb back to where a relative identity starts is not to climb above it, but is refused. -/
theorem not_refuses_above : ¬ ∀ (aliases : Scope String) (specifier : String)
    (referrer : Option String), aliases.get? specifier = none → Written specifier →
      ((∃ text, resolver aliases specifier referrer = .error (.outsideRoot text)) ↔
        Climbs 0 [] (route specifier referrer)) := by
  intro claim
  have stays : ¬ Climbs 0 [] (route "../b.js" (some "lib/a.js")) := by decide
  have refused : resolver .empty "../b.js" (some "lib/a.js") = .error (.outsideRoot "../b.js") := by
    decide +kernel
  exact stays ((claim .empty "../b.js" (some "lib/a.js") rfl (.inr (.inr (by decide)))).mp
    ⟨_, refused⟩)

end Lexical
end MixedModules.Specifier
