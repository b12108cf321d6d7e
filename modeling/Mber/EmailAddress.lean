import Mber.RegularExpressions
import Mber.ListSplits

/-!
`isValidEmailAddress`, the form check behind both forms. The predicate `MATCHES`
tests the whole string. The dot is a letter of the local and of the domain
class as well as a separator; the sign `@` belongs to no class and the dot not
to the last one, so the sign and the last dot are where every match splits.
-/
namespace Mber.EmailAddress

open RegularExpression RegularExpressions ListSplits

/-- `[A-Z0-9a-z._%+-]` -/
def localLetters : List Char :=
  range 'A' 'Z' ++ range '0' '9' ++ range 'a' 'z' ++ ['.', '_', '%', '+', '-']

/-- `[A-Za-z0-9.-]` -/
def domainLetters : List Char :=
  range 'A' 'Z' ++ range 'a' 'z' ++ range '0' '9' ++ ['.', '-']

/-- `[A-Za-z]` -/
def topLetters : List Char := range 'A' 'Z' ++ range 'a' 'z'

def localRegEx : RegularExpression Char := atLeast 1 (oneOf localLetters)

def domainRegEx : RegularExpression Char := atLeast 1 (oneOf domainLetters)

def topRegEx : RegularExpression Char := atLeast 2 (oneOf topLetters)

def emailRegEx : RegularExpression Char :=
  localRegEx * (char '@' * (domainRegEx * (char '.' * topRegEx)))

def isValidEmailAddress (email : String) : Bool := emailRegEx.rmatch email.toList

def isLocalLetter (c : Char) : Bool := c.isAlphanum || c ∈ ['.', '_', '%', '+', '-']

def isDomainLetter (c : Char) : Bool := c.isAlphanum || c ∈ ['.', '-']

theorem mem_topLetters (c : Char) : c ∈ topLetters ↔ c.isAlpha = true := by
  have hupper : c.isUpper = decide ('A' ≤ c ∧ c ≤ 'Z') := rfl
  have hlower : c.isLower = (decide ('a' ≤ c) && decide (c ≤ 'z')) := rfl
  have halpha : c.isAlpha = (c.isUpper || c.isLower) := rfl
  simp only [topLetters, List.mem_append, mem_range, halpha, hupper, hlower, Bool.or_eq_true,
    Bool.and_eq_true, decide_eq_true_eq]

theorem mem_digits (c : Char) : c ∈ range '0' '9' ↔ c.isDigit = true := by
  simp only [mem_range, Char.isDigit, Bool.and_eq_true, decide_eq_true_eq]
  exact Iff.rfl

theorem mem_localLetters (c : Char) : c ∈ localLetters ↔ isLocalLetter c = true := by
  have hletters : c ∈ range 'A' 'Z' ∨ c ∈ range 'a' 'z' ↔ c.isAlpha = true := by
    simpa only [topLetters, List.mem_append] using mem_topLetters c
  simp only [localLetters, List.mem_append, isLocalLetter, Char.isAlphanum, Bool.or_eq_true,
    decide_eq_true_eq, ← hletters, ← mem_digits, or_right_comm]

theorem mem_domainLetters (c : Char) : c ∈ domainLetters ↔ isDomainLetter c = true := by
  have hletters : c ∈ range 'A' 'Z' ∨ c ∈ range 'a' 'z' ↔ c.isAlpha = true := by
    simpa only [topLetters, List.mem_append] using mem_topLetters c
  simp only [domainLetters, List.mem_append, isDomainLetter, Char.isAlphanum, Bool.or_eq_true,
    decide_eq_true_eq, ← hletters, ← mem_digits]

theorem mem_localRegEx (x : List Char) :
    x ∈ localRegEx.matches' ↔ x ≠ [] ∧ x.all isLocalLetter = true := by
  simp only [localRegEx, mem_atLeast_oneOf, mem_localLetters, Nat.one_le_iff_ne_zero, ne_eq,
    List.length_eq_zero_iff, List.all_eq_true]

theorem mem_domainRegEx (x : List Char) :
    x ∈ domainRegEx.matches' ↔ x ≠ [] ∧ x.all isDomainLetter = true := by
  simp only [domainRegEx, mem_atLeast_oneOf, mem_domainLetters, Nat.one_le_iff_ne_zero, ne_eq,
    List.length_eq_zero_iff, List.all_eq_true]

theorem mem_topRegEx (x : List Char) :
    x ∈ topRegEx.matches' ↔ 2 ≤ x.length ∧ x.all Char.isAlpha = true := by
  simp only [topRegEx, mem_atLeast_oneOf, mem_topLetters, List.all_eq_true]

structure EmailParts where
  localPart : List Char
  domain : List Char
  topLevel : List Char

/-- The parts make up the text and each is matched by its own expression. -/
structure MatchedBy (s : List Char) (p : EmailParts) : Prop where
  text : p.localPart ++ '@' :: (p.domain ++ '.' :: p.topLevel) = s
  localPart : p.localPart ∈ localRegEx.matches'
  domain : p.domain ∈ domainRegEx.matches'
  topLevel : p.topLevel ∈ topRegEx.matches'

theorem mem_emailRegEx (s : List Char) : s ∈ emailRegEx.matches' ↔ ∃ p, MatchedBy s p := by
  simp only [emailRegEx, matches'_mul, matches'_char, Language.mem_mul]
  constructor
  · intro h
    obtain ⟨localPart, hlocal, afterLocal, hafter, htext⟩ := h
    obtain ⟨sign, rfl, rest, ⟨domain, hdomain, afterDomain, hdot, rfl⟩, rfl⟩ := hafter
    obtain ⟨dot, rfl, topLevel, htop, rfl⟩ := hdot
    exact ⟨⟨localPart, domain, topLevel⟩, htext, hlocal, hdomain, htop⟩
  · intro h
    obtain ⟨p, htext, hlocal, hdomain, htop⟩ := h
    exact ⟨p.localPart, hlocal, _, ⟨['@'], rfl, _, ⟨p.domain, hdomain, _,
      ⟨['.'], rfl, p.topLevel, htop, rfl⟩, rfl⟩, rfl⟩, htext⟩

variable {s : List Char} {p : EmailParts}

/-- The sign stands between the local part and the domain only. -/
theorem MatchedBy.sign_not_mem (h : MatchedBy s p) :
    '@' ∉ p.localPart ∧ '@' ∉ p.domain ++ '.' :: p.topLevel := by
  constructor
  · intro hmem
    have hletter := List.all_eq_true.mp ((mem_localRegEx _).mp h.localPart).2 '@' hmem
    revert hletter
    decide
  · intro hmem
    rcases List.mem_append.mp hmem with hmem | hmem
    · have hletter := List.all_eq_true.mp ((mem_domainRegEx _).mp h.domain).2 '@' hmem
      revert hletter
      decide
    · have htop := (List.mem_cons.mp hmem).resolve_left (by decide)
      have hletter := List.all_eq_true.mp ((mem_topRegEx _).mp h.topLevel).2 '@' htop
      revert hletter
      decide

/-- The top-level part holds no dot. -/
theorem MatchedBy.dot_not_mem (h : MatchedBy s p) : '.' ∉ p.topLevel := by
  intro hmem
  have hletter := List.all_eq_true.mp ((mem_topRegEx _).mp h.topLevel).2 '.' hmem
  revert hletter
  decide

/-- The two splits: at the sign `@` and at the last dot. -/
def splitParts (s : List Char) : EmailParts where
  localPart := before '@' s
  domain := after '@' (beforeLast '.' s)
  topLevel := afterLast '.' s

theorem MatchedBy.eq_splitParts (h : MatchedBy s p) : p = splitParts s := by
  obtain ⟨hsign, -⟩ := h.sign_not_mem
  have htext : p.localPart ++ '@' :: p.domain ++ '.' :: p.topLevel = s := by
    simpa using h.text
  have hbefore : beforeLast '.' s = p.localPart ++ '@' :: p.domain := by
    rw [← htext, beforeLast_append h.dot_not_mem]
  have hafter : afterLast '.' s = p.topLevel := by
    rw [← htext, afterLast_append h.dot_not_mem]
  have hlocal : before '@' s = p.localPart := by
    rw [← h.text, before_append hsign]
  simp only [splitParts, hbefore, hafter, hlocal, after_append hsign]

/-- Decided by the two splits alone. -/
@[mk_iff]
structure TwoSplits (s : List Char) : Prop where
  one_sign : s.count '@' = 1
  local_ne : before '@' s ≠ []
  local_letters : (before '@' s).all isLocalLetter = true
  dot : '.' ∈ after '@' s
  domain_ne : after '@' (beforeLast '.' s) ≠ []
  domain_letters : (after '@' (beforeLast '.' s)).all isDomainLetter = true
  top_length : 2 ≤ (afterLast '.' s).length
  top_letters : (afterLast '.' s).all Char.isAlpha = true

instance : DecidablePred TwoSplits := fun s => decidable_of_iff' _ (twoSplits_iff s)

theorem MatchedBy.twoSplits (h : MatchedBy s p) : TwoSplits s := by
  obtain ⟨hlocal, hrest⟩ := h.sign_not_mem
  have hparts := h.eq_splitParts
  obtain ⟨hlocalne, hlocalletters⟩ := (mem_localRegEx _).mp h.localPart
  obtain ⟨hdomainne, hdomainletters⟩ := (mem_domainRegEx _).mp h.domain
  obtain ⟨hlength, htopletters⟩ := (mem_topRegEx _).mp h.topLevel
  rw [hparts] at hlocalne hlocalletters hdomainne hdomainletters hlength htopletters
  refine ⟨?_, hlocalne, hlocalletters, ?_, hdomainne, hdomainletters, hlength, htopletters⟩
  · rw [← h.text, List.count_append, List.count_cons_self, List.count_eq_zero.mpr hlocal,
      List.count_eq_zero.mpr hrest]
  · rw [← h.text, after_append hlocal]
    simp

/-- The text is put together again from its two splits. -/
theorem TwoSplits.text (h : TwoSplits s) :
    before '@' s ++ '@' :: (after '@' (beforeLast '.' s) ++ '.' :: afterLast '.' s) = s := by
  have hsign : '@' ∈ s := List.count_pos_iff.mp (by rw [h.one_sign]; exact Nat.one_pos)
  have hfirst := before_append_after hsign
  have hsecond := beforeLast_append_afterLast h.dot
  have hs : before '@' s ++ '@' :: beforeLast '.' (after '@' s) ++
      '.' :: afterLast '.' (after '@' s) = s := by
    simpa [hsecond] using hfirst
  have hbefore : beforeLast '.' s = before '@' s ++ '@' :: beforeLast '.' (after '@' s) := by
    nth_rewrite 1 [← hs]
    exact beforeLast_append not_mem_afterLast
  have hafter : afterLast '.' s = afterLast '.' (after '@' s) := by
    nth_rewrite 1 [← hs]
    exact afterLast_append not_mem_afterLast
  rw [hbefore, hafter, after_append not_mem_before]
  simpa using hs

theorem TwoSplits.matched (h : TwoSplits s) : MatchedBy s (splitParts s) where
  text := h.text
  localPart := (mem_localRegEx _).mpr ⟨h.local_ne, h.local_letters⟩
  domain := (mem_domainRegEx _).mpr ⟨h.domain_ne, h.domain_letters⟩
  topLevel := (mem_topRegEx _).mpr ⟨h.top_length, h.top_letters⟩

theorem isValidEmailAddress_iff (email : String) :
    isValidEmailAddress email = true ↔ TwoSplits email.toList := by
  rw [isValidEmailAddress, rmatch_iff_matches', mem_emailRegEx]
  constructor
  · intro h
    obtain ⟨p, hp⟩ := h
    exact hp.twoSplits
  · exact fun h => ⟨_, h.matched⟩

/-- The match succeeds exactly on the texts that pass the two splits, and then
there is one way only to read the text as local part, domain and top level. -/
theorem isValidEmailAddress_decided_by_splits (email : String) :
    (isValidEmailAddress email = true ↔ TwoSplits email.toList) ∧
      (isValidEmailAddress email = true → ∃! p, MatchedBy email.toList p) := by
  refine ⟨isValidEmailAddress_iff email, ?_⟩
  intro hvalid
  have hsplits := (isValidEmailAddress_iff email).mp hvalid
  exact ⟨splitParts email.toList, hsplits.matched, fun p hp => hp.eq_splitParts⟩

/-- The domain may hold dots of its own; a second sign is refused. -/
example : TwoSplits "a.b@mail.co.uk".toList ∧ ¬ TwoSplits "a@b@mail.com".toList := by
  decide

end Mber.EmailAddress
