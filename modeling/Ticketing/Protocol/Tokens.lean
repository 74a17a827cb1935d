import Ticketing.Protocol.Parser

/-!
# What the parser takes for arguments

The tokens of a line are its maximal runs of non-blank bytes.  `parse_command` copies at most
`MAX_ARG_LEN - 1` bytes at a time and goes on where it stopped, in the middle of the token if need be.

* `lineTokens` — the runs, and how blanks separate them.
* `pieces` — a token as the parser cuts it; `parseCommand_tokens` is the parser in these words.
* `IsTokenised`, `InPlace` — one argument for each token, and when the pieces give that.
* `parse_command_tokenises_iff` — exactly when the parser does.
-/

set_option autoImplicit false

namespace Ticketing

open CText

/-! ## Tokens -/

/-- The maximal runs of bytes that are no white space. -/
def lineTokens (s : CStr) : List CStr := (s.splitOnP isSpace).filter (fun t => !t.isEmpty)

theorem ne_nil_of_mem_lineTokens {s t : CStr} (h : t ∈ lineTokens s) : t ≠ [] := by
  rintro rfl
  have := List.of_mem_filter h
  cases this

theorem lineTokens_nil : lineTokens [] = [] := rfl

/-- A blank separates. -/
theorem lineTokens_blank {b : UInt8} (hb : isSpace b = true) (s s' : CStr) :
    lineTokens (s ++ b :: s') = lineTokens s ++ lineTokens s' := by
  rw [lineTokens, List.splitOnP_append_cons s s' hb, List.filter_append]
  rfl

theorem lineTokens_cons_blank {b : UInt8} (hb : isSpace b = true) (s : CStr) :
    lineTokens (b :: s) = lineTokens s := by
  have h := lineTokens_blank hb [] s
  rwa [List.nil_append, lineTokens_nil, List.nil_append] at h

/-- Blanks at the front do not matter. -/
theorem lineTokens_dropWhile (s : CStr) : lineTokens (s.dropWhile isSpace) = lineTokens s := by
  induction s with
  | nil => rfl
  | cons b s ih =>
    rw [List.dropWhile_cons]
    split
    · rename_i hb
      rw [ih, lineTokens_cons_blank hb]
    · rfl

/-- Nor do blanks at the end. -/
theorem lineTokens_append_blanks (s : CStr) : ∀ {w : CStr}, (∀ b ∈ w, isSpace b = true) →
    lineTokens (s ++ w) = lineTokens s := by
  intro w
  induction w with
  | nil => intro _; rw [List.append_nil]
  | cons b w ih =>
    intro h
    rw [List.forall_mem_cons] at h
    have hw : lineTokens w = [] := by
      rw [← lineTokens_dropWhile, List.dropWhile_eq_nil_iff.mpr h.2, lineTokens_nil]
    rw [lineTokens_blank h.1, hw, List.append_nil]

/-- A word, up to the next blank or the end, is a token. -/
theorem lineTokens_word {w rest : CStr} (hw : ∀ b ∈ w, isSpace b = false) (hne : w ≠ [])
    (hrest : ∀ b, rest.head? = some b → isSpace b = true) : lineTokens (w ++ rest) = w :: lineTokens rest := by
  have hw' : lineTokens w = [w] := by
    rw [lineTokens, List.splitOnP_eq_singleton hw]
    simp [hne]
  cases rest with
  | nil => rw [List.append_nil, hw', lineTokens_nil]
  | cons b rest =>
    have hb : isSpace b = true := hrest b rfl
    rw [lineTokens_blank hb, hw', lineTokens_cons_blank hb, List.singleton_append]

/-! ## Pieces -/

/-- A token as the parser cuts it. -/
def pieces (a : CStr) : List CStr :=
  if a = [] then [] else a.take (MAX_ARG_LEN - 1) :: pieces (a.drop (MAX_ARG_LEN - 1))
termination_by a.length
decreasing_by
  have hpos := List.length_pos_iff.mpr ‹a ≠ []›
  rw [List.length_drop, MAX_ARG_LEN]
  omega

theorem pieces_nil : pieces [] = [] := by
  unfold pieces
  rfl

theorem pieces_cons {a : CStr} (h : a ≠ []) :
    pieces a = a.take (MAX_ARG_LEN - 1) :: pieces (a.drop (MAX_ARG_LEN - 1)) := by
  rw [pieces, if_neg h]

theorem pieces_short {a : CStr} (h : a ≠ []) (hlen : a.length < MAX_ARG_LEN) : pieces a = [a] := by
  rw [pieces_cons h, List.take_of_length_le (by omega), List.drop_of_length_le (by omega), pieces_nil]

theorem two_le_length_pieces {a : CStr} (hlen : MAX_ARG_LEN ≤ a.length) : 2 ≤ (pieces a).length := by
  have hpos : a ≠ [] := by
    rintro rfl
    exact absurd hlen (by decide)
  have hrest : a.drop (MAX_ARG_LEN - 1) ≠ [] := by
    rw [← List.length_pos_iff, List.length_drop]
    have : MAX_ARG_LEN = 256 := rfl
    omega
  rw [pieces_cons hpos, pieces_cons hrest, List.length_cons, List.length_cons]
  omega

/-- A word in front of a line, perhaps the rest of a token, is cut first. -/
theorem pieces_word {w rest : CStr} (hw : ∀ b ∈ w, isSpace b = false)
    (hrest : ∀ b, rest.head? = some b → isSpace b = true) :
    (lineTokens (w ++ rest)).flatMap pieces = pieces w ++ (lineTokens rest).flatMap pieces := by
  rcases eq_or_ne w [] with rfl | hne
  · rw [List.nil_append, pieces_nil, List.nil_append]
  · rw [lineTokens_word hw hne hrest, List.flatMap_cons]

/-! ## The loops of the parser -/

/-- A line that does not begin with a blank: its first word, and what the token loop makes of it. -/
theorem takeToken_spec {p : CStr} (hne : p ≠ []) (hhead : ∀ b, p.head? = some b → isSpace b = false) :
    ∃ w rest, p = w ++ rest ∧ w ≠ [] ∧ (∀ b ∈ w, isSpace b = false) ∧
      (∀ b, rest.head? = some b → isSpace b = true) ∧
      takeToken p = w.take (MAX_ARG_LEN - 1) ∧
      p.drop (takeToken p).length = w.drop (MAX_ARG_LEN - 1) ++ rest := by
  have hw : ∀ b ∈ p.takeWhile (fun b => !isSpace b), isSpace b = false := fun b hb => by
    simpa using List.mem_takeWhile_imp hb
  refine ⟨p.takeWhile (fun b => !isSpace b), p.dropWhile (fun b => !isSpace b),
    List.takeWhile_append_dropWhile.symm, ?_, hw, fun b hb => ?_, rfl, ?_⟩
  · obtain ⟨b, p, rfl⟩ := List.exists_cons_of_ne_nil hne
    rw [List.takeWhile_cons, hhead b rfl]
    exact List.cons_ne_nil _ _
  · have := List.head?_dropWhile_not (fun b => !isSpace b) p
    rw [hb] at this
    simpa using this
  · have htoken : takeToken p = (p.takeWhile fun b => !isSpace b).take (MAX_ARG_LEN - 1) := rfl
    have hsplit : (p.takeWhile fun b => !isSpace b) ++ (p.dropWhile fun b => !isSpace b) = p :=
      List.takeWhile_append_dropWhile
    rw [htoken]
    generalize (p.takeWhile fun b => !isSpace b) = w at hsplit ⊢
    rw [← hsplit, List.length_take, List.drop_append_of_le_length (Nat.min_le_right _ _)]
    congr 1
    · rcases Nat.le_total (MAX_ARG_LEN - 1) w.length with hle | hle
      · rw [Nat.min_eq_left hle]
      · rw [Nat.min_eq_right hle, List.drop_of_length_le (Nat.le_refl _), List.drop_of_length_le hle]
    · rw [hsplit]

theorem head_dropWhile_isSpace (p : CStr) :
    ∀ b, (p.dropWhile isSpace).head? = some b → isSpace b = false := by
  intro b hb
  have := List.head?_dropWhile_not isSpace p
  rw [hb] at this
  simpa using this

/-- **The argument loop** takes the pieces of the tokens in front of it. -/
theorem parseArgs_tokens (n : Nat) : ∀ p : CStr,
    parseArgs n p = ((lineTokens p).flatMap pieces).take n := by
  induction n with
  | zero => intro p; rfl
  | succ n ih =>
    intro p
    rw [parseArgs, ← lineTokens_dropWhile p]
    have hhead := head_dropWhile_isSpace p
    generalize p.dropWhile isSpace = q at hhead
    by_cases hq : q = []
    · rw [if_pos hq, hq, lineTokens_nil]
      rfl
    · obtain ⟨w, rest, hsplit, hne, hw, hrest, htoken, hdrop⟩ := takeToken_spec hq hhead
      rw [if_neg hq, ih, hdrop, htoken, hsplit, pieces_word hw hrest, pieces_cons hne,
        pieces_word (fun b hb => hw b (List.mem_of_mem_drop hb)) hrest, List.cons_append,
        List.take_succ_cons]

theorem isSpace_of_isEol {b : UInt8} (h : isEol b = true) : isSpace b = true := by
  simp only [isEol, Bool.or_eq_true, beq_iff_eq] at h
  rcases h with rfl | rfl <;> rfl

/-- The line ends that `parse_command` strips are blanks. -/
theorem lineTokens_stripEol (s : CStr) : lineTokens (stripEol s) = lineTokens s := by
  have hsplit : s = stripEol s ++ s.rtakeWhile isEol := List.rdropWhile_append_rtakeWhile.symm
  conv_rhs => rw [hsplit]
  exact (lineTokens_append_blanks _ fun b hb => isSpace_of_isEol (List.mem_rtakeWhile_imp hb)).symm

/-- **`parse_command` on the tokens of a line.** -/
theorem parseCommand_tokens {raw : CStr} (hlen : raw.length ≤ 1023) :
    parseCommand raw =
      match lineTokens raw with
      | [] => none
      | t :: ts => some ⟨rbacParseCommandType (t.take (MAX_ARG_LEN - 1)),
          ((pieces t).tail ++ ts.flatMap pieces).take MAX_CMD_ARGS⟩ := by
  have hcopy : strlcpy MAX_CMD_LENGTH raw = raw := List.take_of_length_le hlen
  rw [parseCommand, hcopy, ← lineTokens_stripEol raw, ← lineTokens_dropWhile]
  have hhead := head_dropWhile_isSpace (stripEol raw)
  generalize (stripEol raw).dropWhile isSpace = p at hhead
  by_cases hp : p = []
  · rw [if_pos hp, hp, lineTokens_nil]
  · obtain ⟨w, rest, hsplit, hne, hw, hrest, htoken, hdrop⟩ := takeToken_spec hp hhead
    simp only [if_neg hp]
    rw [hdrop, htoken, hsplit, lineTokens_word hw hne hrest, parseArgs_tokens,
      pieces_word (fun b hb => hw b (List.mem_of_mem_drop hb)) hrest]
    simp only [pieces_cons hne, List.tail_cons]

/-! ## One argument for each token -/

/-- `t` is the name of `c` in any case, or no command has this name. -/
def NamedBy (t : CStr) (c : CommandType) : Prop :=
  strcasecmpEq t (rbacCommandName c) = true ∨
    c = .unknown ∧ ∀ c', strcasecmpEq t (rbacCommandName c') = false

/-- What the parser says of a line is what its tokens say. -/
def IsTokenised (raw : CStr) : Option ParsedCommand → Prop
  | none => lineTokens raw = []
  | some cmd => ∃ t ts, lineTokens raw = t :: ts ∧ NamedBy t cmd.type ∧
      cmd.args = (ts.map (List.take (MAX_ARG_LEN - 1))).take MAX_CMD_ARGS

/-- No token that the parser reads on from is longer than an argument, or each piece that is left over
happens to be what stands in its place. -/
def InPlace (ts : List CStr) : Prop :=
  (∀ t ∈ ts.take MAX_CMD_ARGS, t.length < MAX_ARG_LEN) ∨
    MAX_CMD_ARGS < ts.length ∧
      ∀ i ≤ MAX_CMD_ARGS, (ts.flatMap pieces)[i]? = (ts.map (List.take (MAX_ARG_LEN - 1)))[i]?

theorem rbacParseCommandType_named (t : CStr) : NamedBy t (rbacParseCommandType t) := by
  unfold rbacParseCommandType
  cases hfind : CommandType.all.find? fun c => strcasecmpEq t (rbacCommandName c) with
  | some c =>
    refine Or.inl ?_
    have := List.find?_some hfind
    exact this
  | none =>
    refine Or.inr ⟨rfl, fun c => ?_⟩
    rw [List.find?_eq_none] at hfind
    exact Bool.eq_false_iff.mpr (hfind c (by cases c <;> decide))

theorem length_rbacCommandName_lt (c : CommandType) : (rbacCommandName c).length < MAX_ARG_LEN - 1 := by
  cases c <;> decide

/-- A name that was cut is no command's, as the whole one is. -/
theorem rbacParseCommandType_take_named (t : CStr) :
    NamedBy t (rbacParseCommandType (t.take (MAX_ARG_LEN - 1))) := by
  rcases Nat.le_total t.length (MAX_ARG_LEN - 1) with hle | hle
  · rw [List.take_of_length_le hle]
    exact rbacParseCommandType_named t
  · have hlong : ∀ s : CStr, MAX_ARG_LEN - 1 ≤ s.length → ∀ c, strcasecmpEq s (rbacCommandName c) = false := by
      intro s hs c
      rw [← Bool.not_eq_true]
      intro heq
      have hlen := congrArg List.length (eq_of_beq heq)
      rw [List.length_map, List.length_map] at hlen
      have := length_rbacCommandName_lt c
      omega
    have hcut : MAX_ARG_LEN - 1 ≤ (t.take (MAX_ARG_LEN - 1)).length := by
      rw [List.length_take, Nat.min_eq_left hle]
    refine Or.inr ⟨?_, hlong t hle⟩
    obtain hname | ⟨hunknown, -⟩ := rbacParseCommandType_named (t.take (MAX_ARG_LEN - 1))
    · rw [hlong _ hcut] at hname
      cases hname
    · exact hunknown

/-- Tokens that are no longer than an argument are their own pieces. -/
theorem flatMap_pieces_short : ∀ {ts : List CStr}, (∀ t ∈ ts, t ≠ []) →
    (∀ t ∈ ts, t.length < MAX_ARG_LEN) → ts.flatMap pieces = ts.map (List.take (MAX_ARG_LEN - 1)) := by
  intro ts
  induction ts with
  | nil => intro _ _; rfl
  | cons t ts ih =>
    intro hne hlen
    rw [List.forall_mem_cons] at hne hlen
    rw [List.flatMap_cons, List.map_cons, pieces_short hne.1 hlen.1, ih hne.2 hlen.2,
      List.take_of_length_le (by omega)]
    rfl

/-- There is a piece for every token, and one more for a long one. -/
theorem length_flatMap_pieces : ∀ {ts : List CStr}, (∀ t ∈ ts, t ≠ []) →
    ts.length ≤ (ts.flatMap pieces).length ∧
      ((∃ t ∈ ts, MAX_ARG_LEN ≤ t.length) → ts.length < (ts.flatMap pieces).length) := by
  intro ts
  induction ts with
  | nil => intro _; exact ⟨Nat.le_refl _, fun ⟨t, ht, _⟩ => absurd ht List.not_mem_nil⟩
  | cons t ts ih =>
    intro hne
    rw [List.forall_mem_cons] at hne
    obtain ⟨hle, hlt⟩ := ih hne.2
    have hone : 1 ≤ (pieces t).length := by
      rw [pieces_cons hne.1, List.length_cons]
      omega
    rw [List.flatMap_cons, List.length_append, List.length_cons]
    refine ⟨by omega, fun ⟨x, hx, hlong⟩ => ?_⟩
    rcases List.mem_cons.mp hx with rfl | hx
    · have := two_le_length_pieces hlong
      omega
    · have := hlt ⟨x, hx, hlong⟩
      omega

/-- Up to the first long token every piece is a token. -/
theorem pieces_in_place {ts : List CStr} (hne : ∀ t ∈ ts, t ≠ [])
    (hshort : ∀ t ∈ ts.take MAX_CMD_ARGS, t.length < MAX_ARG_LEN) {i : Nat} (hi : i ≤ MAX_CMD_ARGS) :
    (ts.flatMap pieces)[i]? = (ts.map (List.take (MAX_ARG_LEN - 1)))[i]? := by
  have hfront := flatMap_pieces_short (fun t ht => hne t (List.mem_of_mem_take ht)) hshort
  have hback : ∀ t ∈ ts.drop MAX_CMD_ARGS, t ≠ [] := fun t ht => hne t (List.mem_of_mem_drop ht)
  have hlen : ts.drop MAX_CMD_ARGS ≠ [] → ((ts.take MAX_CMD_ARGS).map
      (List.take (MAX_ARG_LEN - 1))).length = MAX_CMD_ARGS := by
    intro h
    rw [← List.length_pos_iff, List.length_drop] at h
    rw [List.length_map, List.length_take]
    omega
  rw [← List.take_append_drop MAX_CMD_ARGS ts, List.flatMap_append, List.map_append, hfront]
  generalize (ts.take MAX_CMD_ARGS).map (List.take (MAX_ARG_LEN - 1)) = front at hlen
  cases hrest : ts.drop MAX_CMD_ARGS with
  | nil => rfl
  | cons t rest =>
    have hfull : front.length = MAX_CMD_ARGS := hlen (by rw [hrest]; exact List.cons_ne_nil _ _)
    rcases Nat.lt_or_ge i front.length with hlt | hge
    · rw [List.getElem?_append_left hlt, List.getElem?_append_left hlt]
    · -- the last argument is the first piece of its token, whatever follows
      have ht : t ≠ [] := hback t (by rw [hrest]; exact List.mem_cons_self)
      obtain rfl : i = front.length := by omega
      rw [List.getElem?_append_right (Nat.le_refl _), List.getElem?_append_right (Nat.le_refl _),
        Nat.sub_self, List.flatMap_cons, pieces_cons ht]
      rfl

/-- **When the pieces are the arguments.** -/
theorem inPlace_iff {t : CStr} {ts : List CStr} (hne : ∀ x ∈ t :: ts, x ≠ []) :
    ((pieces t).tail ++ ts.flatMap pieces).take MAX_CMD_ARGS =
        (ts.map (List.take (MAX_ARG_LEN - 1))).take MAX_CMD_ARGS ↔ InPlace (t :: ts) := by
  have ht : t ≠ [] := hne t List.mem_cons_self
  have hcut : (t :: ts).flatMap pieces =
      t.take (MAX_ARG_LEN - 1) :: ((pieces t).tail ++ ts.flatMap pieces) := by
    rw [List.flatMap_cons, pieces_cons ht, List.tail_cons, List.cons_append]
  have hmap : (t :: ts).map (List.take (MAX_ARG_LEN - 1)) =
      t.take (MAX_ARG_LEN - 1) :: ts.map (List.take (MAX_ARG_LEN - 1)) := List.map_cons
  constructor
  · intro heq
    by_cases hshort : ∀ x ∈ (t :: ts).take MAX_CMD_ARGS, x.length < MAX_ARG_LEN
    · exact Or.inl hshort
    · refine Or.inr ⟨?_, ?_⟩
      · -- with fewer tokens the piece left over would be one argument too many
        by_contra hfew
        rw [Nat.not_lt] at hfew
        rw [List.take_of_length_le hfew] at hshort
        obtain ⟨x, hx, hlong⟩ : ∃ x ∈ t :: ts, MAX_ARG_LEN ≤ x.length := by
          simpa only [not_forall, Nat.not_lt, exists_prop] using hshort
        have hlt := (length_flatMap_pieces hne).2 ⟨x, hx, hlong⟩
        have hlen := congrArg List.length heq
        rw [hcut, List.length_cons, List.length_cons] at hlt
        rw [List.length_cons] at hfew
        rw [List.length_take, List.length_take, List.length_map] at hlen
        omega
      · intro i hi
        rw [hcut, hmap]
        cases i with
        | zero => rfl
        | succ i =>
          have := congrArg (fun l => l[i]?) heq
          simpa only [List.getElem?_take_of_lt (Nat.lt_of_succ_le hi), List.getElem?_cons_succ] using this
  · intro h
    have hplace : ∀ i ≤ MAX_CMD_ARGS, ((t :: ts).flatMap pieces)[i]? =
        ((t :: ts).map (List.take (MAX_ARG_LEN - 1)))[i]? := by
      rcases h with hshort | ⟨-, hplace⟩
      · exact fun i hi => pieces_in_place hne hshort hi
      · exact hplace
    apply List.ext_getElem?
    intro i
    rcases Nat.lt_or_ge i MAX_CMD_ARGS with hi | hi
    · have := hplace (i + 1) hi
      rw [hcut, hmap, List.getElem?_cons_succ, List.getElem?_cons_succ] at this
      rw [List.getElem?_take_of_lt hi, List.getElem?_take_of_lt hi, this]
    · rw [List.getElem?_take_eq_none hi, List.getElem?_take_eq_none hi]

theorem isTokenised_iff {raw : CStr} (hlen : raw.length ≤ 1023) :
    IsTokenised raw (parseCommand raw) ↔ InPlace (lineTokens raw) := by
  rw [parseCommand_tokens hlen]
  have hne : ∀ t ∈ lineTokens raw, t ≠ [] := fun t ht => ne_nil_of_mem_lineTokens ht
  cases hts : lineTokens raw with
  | nil => exact ⟨fun _ => Or.inl (fun t ht => absurd ht List.not_mem_nil), fun _ => hts⟩
  | cons t ts =>
    rw [hts] at hne
    rw [← inPlace_iff hne]
    constructor
    · rintro ⟨t', ts', heq, -, hargs⟩
      rw [hts, List.cons.injEq] at heq
      obtain ⟨rfl, rfl⟩ := heq
      exact hargs
    · intro heq
      exact ⟨t, ts, hts, rbacParseCommandType_take_named t, heq⟩

/-- **The parser splits at white space unless a token is too long.**  For a line of at most 1023 bytes
the result is the command with the name of the first token and the first 16 of the others, cut to 255
bytes each, exactly if none of the first 16 tokens is longer, or what is left over of it happens to be
what stands in its place; and white space around the tokens makes no difference. -/
theorem parse_command_tokenises_iff (raw : CStr) (hlen : raw.length ≤ 1023) :
    (IsTokenised raw (parseCommand raw) ∧
      ∀ raw' : CStr, raw'.length ≤ 1023 → lineTokens raw' = lineTokens raw →
        parseCommand raw' = parseCommand raw) ↔ InPlace (lineTokens raw) := by
  rw [isTokenised_iff hlen]
  refine and_iff_left fun raw' hlen' hsame => ?_
  rw [parseCommand_tokens hlen, parseCommand_tokens hlen', hsame]

/-- `VIEW_EVENT 1`, with other blanks. -/
theorem parse_command_tokenises_view :
    IsTokenised (text "  VIEW_EVENT\t1\n") (parseCommand (text "  VIEW_EVENT\t1\n")) :=
  ((parse_command_tokenises_iff (text "  VIEW_EVENT\t1\n") (by decide)).mpr (Or.inl (by decide))).1

/-- One argument of 256 bytes becomes two. -/
theorem long_token_gives_two_arguments :
    ∃ raw : CStr, raw.length ≤ 1023 ∧ lineTokens raw = [text "HELP", List.replicate 256 97] ∧
      parseCommand raw = some ⟨.help, [List.replicate 255 97, [97]]⟩ ∧
      ¬ IsTokenised raw (parseCommand raw) := by
  have hne : List.replicate 256 (97 : UInt8) ≠ [] :=
    List.ne_nil_of_length_pos (by rw [List.length_replicate]; decide)
  have hlong : pieces (List.replicate 256 97) = [List.replicate 255 97, [97]] := by
    rw [pieces_cons hne, MAX_ARG_LEN, List.take_replicate, List.drop_replicate,
      pieces_short (by simp) (by decide)]
    rfl
  have htokens : lineTokens (text "HELP" ++ 32 :: List.replicate 256 97) =
      [text "HELP", List.replicate 256 97] := by
    have hword : lineTokens (List.replicate 256 97) = [List.replicate 256 97] := by
      have hw : ∀ b ∈ List.replicate 256 (97 : UInt8), isSpace b = false := fun b hb => by
        rw [List.eq_of_mem_replicate hb]
        rfl
      have h : lineTokens (List.replicate 256 97 ++ []) = List.replicate 256 97 :: lineTokens [] :=
        lineTokens_word hw hne fun b hb => by cases hb
      rwa [List.append_nil, lineTokens_nil] at h
    rw [lineTokens_blank rfl, hword]
    rfl
  have hlen : (text "HELP" ++ 32 :: List.replicate 256 97).length ≤ 1023 := by
    rw [List.length_append, List.length_cons, List.length_replicate]
    decide
  have hparse : parseCommand (text "HELP" ++ 32 :: List.replicate 256 97) =
      some ⟨.help, [List.replicate 255 97, [97]]⟩ := by
    rw [parseCommand_tokens hlen, htokens]
    simp only [List.flatMap_cons, List.flatMap_nil, hlong]
    rw [pieces_short (by decide) (by decide)]
    rfl
  refine ⟨_, hlen, htokens, hparse, ?_⟩
  rw [hparse]
  rintro ⟨t, ts, heq, -, hargs⟩
  rw [htokens, List.cons.injEq] at heq
  obtain ⟨-, rfl⟩ := heq
  have := congrArg List.length hargs
  rw [List.length_take, List.length_map] at this
  exact absurd this (by decide)

end Ticketing
