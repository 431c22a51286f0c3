import Mathlib.Data.List.Basic

/-!
# Reading what was written

A reader takes an item off the front of a text and gives the rest back. Words end at the first
character that is not theirs, quoted texts at the first quote that is not doubled, lists behind the
first separator that ends them. Each reader gets back what was written, whatever follows.
-/

namespace ProofLib

namespace Reading

variable {σ α : Type*} [DecidableEq σ]

/-- Takes an item off the front of a text, and gives the rest. -/
abbrev Reader (σ α : Type*) := List σ → Option (α × List σ)

/-! ## Words -/

/-- The characters up to the first that is not in a word. -/
def word (isWord : σ → Bool) : Reader σ (List σ) := fun text =>
  some (text.takeWhile isWord, text.dropWhile isWord)

omit [DecidableEq σ] in
theorem word_append {isWord : σ → Bool} {text rest : List σ} (htext : ∀ c ∈ text, isWord c = true)
    (hrest : ∀ c ∈ rest.head?, isWord c = false) :
    word isWord (text ++ rest) = some (text, rest) := by
  have hnone : rest.takeWhile isWord = [] ∧ rest.dropWhile isWord = rest := by
    cases rest with
    | nil => exact ⟨rfl, rfl⟩
    | cons c rest =>
        have hc := hrest c rfl
        simp [hc]
  rw [word, List.takeWhile_append_of_pos htext, List.dropWhile_append_of_pos htext, hnone.1,
    hnone.2, List.append_nil]

/-! ## Quoted texts -/

/-- A text with its quotes doubled. -/
def doubled (quote : σ) (content : List σ) : List σ :=
  content.flatMap fun c => if c = quote then [quote, quote] else [c]

/-- A text between quotes. -/
def quotedText (quote : σ) (content : List σ) : List σ :=
  quote :: (doubled quote content ++ [quote])

/-- What is left of a quoted text, up to the first quote that is not doubled. -/
def closing (quote : σ) : Reader σ (List σ)
  | [] => none
  | [c] => if c = quote then some ([quote], []) else none
  | c :: d :: rest =>
      if c = quote then
        if d = quote then
          (closing quote rest).map fun (body, rest) => (quote :: quote :: body, rest)
        else some ([quote], d :: rest)
      else (closing quote (d :: rest)).map fun (body, rest) => (c :: body, rest)

/-- A quoted text. -/
def quoted (quote : σ) : Reader σ (List σ)
  | [] => none
  | c :: rest =>
      if c = quote then (closing quote rest).map fun (body, rest) => (quote :: body, rest)
      else none

theorem doubled_cons (quote c : σ) (content : List σ) :
    doubled quote (c :: content) =
      (if c = quote then [quote, quote] else [c]) ++ doubled quote content := rfl

theorem closing_doubled {quote : σ} {rest : List σ} (hrest : rest.head? ≠ some quote)
    (content : List σ) :
    closing quote (doubled quote content ++ quote :: rest) =
      some (doubled quote content ++ [quote], rest) := by
  induction content with
  | nil =>
      cases rest with
      | nil => exact if_pos rfl
      | cons d rest =>
          have hd : d ≠ quote := fun h => hrest (congrArg some h)
          show closing quote (quote :: d :: rest) = _
          rw [closing, if_pos rfl, if_neg hd]
          rfl
  | cons c content ih =>
      by_cases hc : c = quote
      · rw [doubled_cons, if_pos hc]
        show closing quote (quote :: quote :: (doubled quote content ++ quote :: rest)) = _
        rw [closing, if_pos rfl, if_pos rfl, ih]
        rfl
      · rw [doubled_cons, if_neg hc]
        show closing quote (c :: (doubled quote content ++ quote :: rest)) = _
        -- something follows the character: the next one, or the closing quote
        cases htail : doubled quote content ++ quote :: rest with
        | nil => exact absurd htail (by simp)
        | cons d tail =>
            rw [closing, if_neg hc, ← htail, ih]
            rfl

/-- A quoted text is read back unless a quote follows. -/
theorem quoted_append {quote : σ} {rest : List σ} (hrest : rest.head? ≠ some quote)
    (content : List σ) :
    quoted quote (quotedText quote content ++ rest) = some (quotedText quote content, rest) := by
  show quoted quote (quote :: (doubled quote content ++ [quote] ++ rest)) = _
  rw [quoted, if_pos rfl, List.append_assoc, List.singleton_append, closing_doubled hrest]
  rfl

/-- Backwards, a quoted text is a quoted text. -/
theorem reverse_quotedText (quote : σ) (content : List σ) :
    (quotedText quote content).reverse = quotedText quote content.reverse := by
  have hdoubled : (doubled quote content).reverse = doubled quote content.reverse := by
    induction content with
    | nil => rfl
    | cons c content ih =>
        rw [doubled_cons, List.reverse_append, ih, List.reverse_cons, doubled, doubled,
          List.flatMap_append, List.flatMap_singleton]
        congr 1
        split <;> rfl
  rw [quotedText, List.reverse_cons, List.reverse_append, hdoubled]
  rfl

/-! ## Texts with escapes -/

/-- A text in which the quotes are doubled, and the escape characters if there are any. -/
def escapedText (quote : σ) (escape : Option σ) (content : List σ) : List σ :=
  content.flatMap fun c => if c = quote ∨ escape = some c then [c, c] else [c]

/-- What such a text stands for, up to the first quote that is not doubled. Behind an escape
character only that character itself is read. -/
def unescaped (quote : σ) (escape : Option σ) : Reader σ (List σ)
  | [] => none
  | [c] => if c = quote then some ([], []) else none
  | c :: d :: rest =>
      if c = quote ∧ d ≠ quote then some ([], d :: rest)
      else if c = quote ∨ escape = some c then
        if d = c then (unescaped quote escape rest).map fun (content, rest) => (c :: content, rest)
        else none
      else (unescaped quote escape (d :: rest)).map fun (content, rest) => (c :: content, rest)

/-- An escaped text is read back as what it stands for, unless a quote follows. -/
theorem unescaped_escapedText {quote : σ} {rest : List σ} (hrest : rest.head? ≠ some quote)
    (escape : Option σ) (content : List σ) :
    unescaped quote escape (escapedText quote escape content ++ quote :: rest) =
      some (content, rest) := by
  induction content with
  | nil =>
      cases rest with
      | nil => exact if_pos rfl
      | cons d rest =>
          have hd : d ≠ quote := fun h => hrest (congrArg some h)
          exact if_pos ⟨rfl, hd⟩
  | cons c content ih =>
      have hcons : escapedText quote escape (c :: content) =
          (if c = quote ∨ escape = some c then [c, c] else [c]) ++
            escapedText quote escape content := rfl
      rw [hcons]
      by_cases hc : c = quote ∨ escape = some c
      · rw [if_pos hc]
        show unescaped quote escape
          (c :: c :: (escapedText quote escape content ++ quote :: rest)) = _
        rw [unescaped, if_neg fun h => h.2 h.1, if_pos hc, if_pos rfl, ih]
        rfl
      · rw [if_neg hc]
        show unescaped quote escape (c :: (escapedText quote escape content ++ quote :: rest)) = _
        -- something follows the character: the next one, or the closing quote
        cases htail : escapedText quote escape content ++ quote :: rest with
        | nil => exact absurd htail (by simp)
        | cons d tail =>
            rw [unescaped, if_neg fun h => hc (.inl h.1), if_neg hc, ← htail, ih]
            rfl

/-! ## Lists -/

/-- Items with a separator between neighbours, through a last separator. -/
def itemsUpTo (item : Reader σ α) (sep last : List σ) : Nat → Reader σ (List α)
  | 0, _ => none
  | fuel + 1, text =>
      (item text).bind fun (a, rest) =>
        match sep.isPrefixOf? rest with
        | some rest =>
            (itemsUpTo item sep last fuel rest).map fun (items, rest) => (a :: items, rest)
        | none => (last.isPrefixOf? rest).map fun rest => ([a], rest)

/-- A list of items: a text has at most one more than characters. -/
def listOf (item : Reader σ α) (sep last : List σ) : Reader σ (List α) := fun text =>
  itemsUpTo item sep last (text.length + 1) text

theorem isPrefixOf?_append (front rest : List σ) :
    front.isPrefixOf? (front ++ rest) = some rest :=
  List.isPrefixOf?_eq_some_iff_append_eq.mpr rfl

theorem itemsUpTo_read {β : Type*} {item : Reader σ β} {sep last rest : List σ}
    (write : α → List σ) (result : α → β) (hlast : sep.isPrefixOf? (last ++ rest) = none)
    {items : List α} (hne : items ≠ [])
    (hitem : ∀ a ∈ items, ∀ rest, (∃ later, rest = sep ++ later ∨ rest = last ++ later) →
      item (write a ++ rest) = some (result a, rest)) {fuel : Nat} (hfuel : items.length ≤ fuel) :
    itemsUpTo item sep last fuel (sep.intercalate (items.map write) ++ (last ++ rest)) =
      some (items.map result, rest) := by
  induction items generalizing fuel with
  | nil => exact absurd rfl hne
  | cons a items ih =>
      cases fuel with
      | zero => exact absurd hfuel (by simp)
      | succ fuel =>
          have ha := hitem a List.mem_cons_self
          cases items with
          | nil =>
              rw [List.map_singleton, List.intercalate_singleton, itemsUpTo,
                ha _ ⟨rest, Or.inr rfl⟩, Option.bind_some]
              dsimp only
              rw [hlast, isPrefixOf?_append]
              rfl
          | cons b items =>
              have hlater := ih (List.cons_ne_nil b items)
                (fun a ha => hitem a (List.mem_cons_of_mem _ ha)) (Nat.le_of_succ_le_succ hfuel)
              rw [List.map_cons, List.map_cons, List.intercalate_cons_cons, List.append_assoc,
                List.append_assoc, itemsUpTo, ha _ ⟨_, Or.inl rfl⟩, Option.bind_some]
              dsimp only
              rw [isPrefixOf?_append]
              dsimp only
              rw [← List.map_cons, hlater]
              rfl

omit [DecidableEq σ] in
/-- A written list is as long as its separators. -/
theorem length_le_intercalate {sep : List σ} (hsep : sep ≠ []) (texts : List (List σ)) :
    texts.length ≤ (sep.intercalate texts).length + 1 := by
  induction texts with
  | nil => exact Nat.zero_le _
  | cons text texts ih =>
      cases texts with
      | nil => simp
      | cons next texts =>
          have hpos : 0 < sep.length := List.length_pos_iff.mpr hsep
          rw [List.intercalate_cons_cons, List.length_append, List.length_append]
          simp only [List.length_cons] at ih ⊢
          omega

/-- A list is read if its items are, and its last separator does not begin like the others. -/
theorem listOf_read {β : Type*} {item : Reader σ β} {sep last rest : List σ} (write : α → List σ)
    (result : α → β) (hsep : sep ≠ []) (hlast : sep.isPrefixOf? (last ++ rest) = none)
    {items : List α} (hne : items ≠ [])
    (hitem : ∀ a ∈ items, ∀ rest, (∃ later, rest = sep ++ later ∨ rest = last ++ later) →
      item (write a ++ rest) = some (result a, rest)) :
    listOf item sep last (sep.intercalate (items.map write) ++ (last ++ rest)) =
      some (items.map result, rest) := by
  refine itemsUpTo_read write result hlast hne hitem ?_
  have hlength := length_le_intercalate hsep (items.map write)
  rw [List.length_map] at hlength
  rw [List.length_append]
  omega

/-- A list is read back if its items are. -/
theorem listOf_written {item : Reader σ α} {sep last rest : List σ} (write : α → List σ)
    (hsep : sep ≠ []) (hlast : sep.isPrefixOf? (last ++ rest) = none) {items : List α}
    (hne : items ≠ [])
    (hitem : ∀ a ∈ items, ∀ rest, (∃ later, rest = sep ++ later ∨ rest = last ++ later) →
      item (write a ++ rest) = some (a, rest)) :
    listOf item sep last (sep.intercalate (items.map write) ++ (last ++ rest)) =
      some (items, rest) := by
  have hread := listOf_read write id hsep hlast hne hitem
  rwa [List.map_id] at hread

omit [DecidableEq σ] in
/-- One more text at the end of a list. -/
theorem intercalate_concat (sep last : List σ) {texts : List (List σ)} (hne : texts ≠ []) :
    sep.intercalate (texts ++ [last]) = sep.intercalate texts ++ (sep ++ last) := by
  induction texts with
  | nil => exact absurd rfl hne
  | cons text texts ih =>
      cases texts with
      | nil =>
          rw [List.singleton_append, List.intercalate_cons_cons, List.intercalate_singleton,
            List.intercalate_singleton, List.append_assoc]
      | cons next texts =>
          have hlater := ih (List.cons_ne_nil next texts)
          rw [List.cons_append, List.cons_append, List.intercalate_cons_cons, ← List.cons_append,
            hlater, List.intercalate_cons_cons]
          simp only [List.append_assoc]

omit [DecidableEq σ] in
/-- A list, backwards. -/
theorem reverse_intercalate (sep : List σ) (texts : List (List σ)) :
    (sep.intercalate texts).reverse =
      sep.reverse.intercalate (texts.map List.reverse).reverse := by
  induction texts with
  | nil => rfl
  | cons text texts ih =>
      cases texts with
      | nil => simp
      | cons next texts =>
          have hne : ((next :: texts).map List.reverse).reverse ≠ [] := by simp
          have hconcat := intercalate_concat sep.reverse text.reverse hne
          rw [List.intercalate_cons_cons, List.reverse_append, List.reverse_append, ih, ← hconcat,
            ← List.reverse_cons, ← List.map_cons]

/-! ## What follows a separator -/

/-- The text in front of the first separator behind which an item can be read. -/
def afterFirst (sep : List σ) (item : Reader σ α) : List σ → Option (List σ × α × List σ)
  | [] => ((sep.isPrefixOf? ([] : List σ)).bind item).map fun (a, rest) => ([], a, rest)
  | c :: text =>
      match (sep.isPrefixOf? (c :: text)).bind item with
      | some (a, rest) => some ([], a, rest)
      | none => (afterFirst sep item text).map fun (front, a, rest) => (c :: front, a, rest)

/-- Nothing can be read behind an earlier separator. -/
theorem afterFirst_append {sep : List σ} {item : Reader σ α} {text rest : List σ} {a : α}
    (hitem : item text = some (a, rest)) {front : List σ}
    (hearlier : ∀ front' c later, front = front' ++ c :: later →
      (sep.isPrefixOf? (c :: later ++ (sep ++ text))).bind item = none) :
    afterFirst sep item (front ++ (sep ++ text)) = some (front, a, rest) := by
  induction front with
  | nil =>
      have hread : (sep.isPrefixOf? (sep ++ text)).bind item = some (a, rest) := by
        rw [isPrefixOf?_append, Option.bind_some, hitem]
      rw [List.nil_append]
      cases htext : sep ++ text with
      | nil =>
          rw [htext] at hread
          rw [afterFirst, hread]
          rfl
      | cons c later =>
          rw [htext] at hread
          rw [afterFirst, hread]
  | cons c front ih =>
      have hlater := ih fun front' d later hfront =>
        hearlier (c :: front') d later (congrArg (c :: ·) hfront)
      rw [List.cons_append, afterFirst, ← List.cons_append, hearlier [] c front rfl, hlater]
      rfl

end Reading

end ProofLib
