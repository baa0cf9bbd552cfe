import Mathlib.Data.List.DropRight

set_option autoImplicit false

/-! # File names of POSIX paths

The functions `basename` and `extname` of Node's `path` module, on lists of characters. The last
part of a path is what stands behind its last slash, slashes at the end aside. Its extension starts
at its last dot; a dot at the very beginning does not start one.

A text is split at the last occurrence of a character: what stands behind it is found again
whatever stands in front (`rtakeWhile_append_cons`).
-/

namespace ErpApi.PosixPath

section LastOccurrence

variable {α : Type} [DecidableEq α] {c : α}

/-- The text behind the last occurrence of a character; the whole text where there is none. -/
def behind (c : α) (l : List α) : List α := l.rtakeWhile (· ≠ c)

theorem behind_append_cons (front : List α) {tail : List α} (h : c ∉ tail) :
    behind c (front ++ c :: tail) = tail := by
  have hall : ∀ x ∈ tail.reverse, decide (x ≠ c) = true := by
    intro x hx
    refine decide_eq_true ?_
    rintro rfl
    exact h (List.mem_reverse.mp hx)
  have htail : (tail.reverse ++ c :: front.reverse).takeWhile (fun x => decide (x ≠ c)) =
      tail.reverse := by
    rw [List.takeWhile_append_of_pos hall, List.takeWhile_cons_of_neg (by simp), List.append_nil]
  rw [behind, List.rtakeWhile, List.reverse_append, List.reverse_cons, List.append_assoc,
    List.singleton_append, htail, List.reverse_reverse]

/-- Every text in which the character occurs splits at its last occurrence. -/
theorem eq_append_behind {l : List α} (h : c ∈ l) : ∃ front, l = front ++ c :: behind c l := by
  have hne : l.rdropWhile (· ≠ c) ≠ [] := by
    rw [ne_eq, List.rdropWhile_eq_nil_iff]
    intro hall
    simpa using hall c h
  have hlast : (l.rdropWhile (· ≠ c)).getLast hne = c := by
    simpa using List.rdropWhile_last_not (· ≠ c) l hne
  have hfront := List.dropLast_append_getLast hne
  rw [hlast] at hfront
  refine ⟨(l.rdropWhile (· ≠ c)).dropLast, ?_⟩
  calc l = l.rdropWhile (· ≠ c) ++ behind c l := List.rdropWhile_append_rtakeWhile.symm
    _ = ((l.rdropWhile (· ≠ c)).dropLast ++ [c]) ++ behind c l := by rw [hfront]
    _ = (l.rdropWhile (· ≠ c)).dropLast ++ c :: behind c l := by
        rw [List.append_assoc, List.singleton_append]

theorem not_mem_behind (c : α) (l : List α) : c ∉ behind c l := by
  intro h
  simpa using List.mem_rtakeWhile_imp h

/-- Two splittings at the last occurrence are the same. -/
theorem append_cons_inj {front front' tail tail' : List α} (h : c ∉ tail) (h' : c ∉ tail')
    (heq : front ++ c :: tail = front' ++ c :: tail') : front = front' ∧ tail = tail' := by
  have htail : tail = tail' := by
    rw [← behind_append_cons front h, heq, behind_append_cons front' h']
  subst htail
  exact ⟨List.append_cancel_right heq, rfl⟩

end LastOccurrence

/-- The part behind the last slash, slashes at the end aside. -/
def lastPart (path : List Char) : List Char := behind '/' (path.rdropWhile (· = '/'))

/-- The function `path.extname`. -/
def extname (path : List Char) : List Char :=
  let part := lastPart path
  if '.' ∉ part then []
  -- The only dot is the first character.
  else if part.length = (behind '.' part).length + 1 then []
  else if part = ['.', '.'] then []
  else '.' :: behind '.' part

/-- The function `path.basename` with a suffix to be taken off. -/
def basename (path suffix : List Char) : List Char :=
  let part := lastPart path
  if suffix = [] then part
  else if suffix = path then []
  else if suffix <:+ part ∧ suffix ≠ part then part.take (part.length - suffix.length)
  else part

variable (path : List Char)

theorem slash_not_mem_lastPart : '/' ∉ lastPart path := not_mem_behind _ _

theorem length_lastPart_le : (lastPart path).length ≤ path.length :=
  (List.rtakeWhile_suffix _ _).length_le.trans (List.rdropWhile_prefix _ path).length_le

/-- An extension is empty, and then the last part has dots only at its beginning; or it is a dot
that is not the first character with what stands behind the last dot. -/
theorem extname_cases :
    extname path = [] ∧ ('.' ∉ lastPart path ∨ ∃ tail, '.' ∉ tail ∧
        (lastPart path = '.' :: tail ∨ lastPart path = '.' :: '.' :: tail)) ∨
      ∃ front, front ≠ [] ∧ extname path = '.' :: behind '.' (lastPart path) ∧
        lastPart path = front ++ extname path := by
  unfold extname
  by_cases hdot : '.' ∈ lastPart path
  · simp only [hdot, not_true_eq_false, if_false, false_or]
    obtain ⟨front, hfront⟩ := eq_append_behind hdot
    have hlen := congrArg List.length hfront
    rw [List.length_append, List.length_cons] at hlen
    by_cases hfirst : (lastPart path).length = (behind '.' (lastPart path)).length + 1
    · left
      rw [if_pos hfirst]
      have hnil : front = [] := List.length_eq_zero_iff.mp (by omega)
      rw [hnil, List.nil_append] at hfront
      exact ⟨rfl, _, not_mem_behind _ _, .inl hfront⟩
    · rw [if_neg hfirst]
      by_cases hparent : lastPart path = ['.', '.']
      · left
        rw [if_pos hparent]
        exact ⟨rfl, [], List.not_mem_nil, .inr hparent⟩
      · right
        rw [if_neg hparent]
        refine ⟨front, ?_, rfl, hfront⟩
        rintro rfl
        exact hfirst (congrArg List.length hfront)
  · left
    rw [if_pos hdot]
    exact ⟨rfl, .inl hdot⟩

theorem slash_not_mem_extname : '/' ∉ extname path := by
  rcases extname_cases path with ⟨hempty, -⟩ | ⟨front, -, -, hpart⟩
  · rw [hempty]
    exact List.not_mem_nil
  · intro h
    refine slash_not_mem_lastPart path ?_
    rw [hpart]
    exact List.mem_append_right _ h

/-- The name without its extension and the extension make up the last part. -/
theorem basename_append_extname :
    basename path (extname path) ++ extname path = lastPart path := by
  rcases extname_cases path with ⟨hempty, -⟩ | ⟨front, hne, hext, hpart⟩
  · simp [basename, hempty]
  · have hlen : (lastPart path).length = front.length + (extname path).length := by
      rw [← List.length_append, ← hpart]
    have hfront : 0 < front.length := List.length_pos_of_ne_nil hne
    have hsome : extname path ≠ [] := by
      rw [hext]
      exact List.cons_ne_nil _ _
    have hproper : extname path ≠ lastPart path := by
      intro h
      have := congrArg List.length h
      omega
    have hpath : extname path ≠ path := by
      intro h
      have := congrArg List.length h
      have := length_lastPart_le path
      omega
    unfold basename
    simp only [hsome, if_false, hpath]
    rw [if_pos ⟨⟨front, hpart.symm⟩, hproper⟩, hlen, Nat.add_sub_cancel]
    conv_lhs =>
      enter [1]
      rw [hpart]
    rw [List.take_left, ← hpart]

end ErpApi.PosixPath
