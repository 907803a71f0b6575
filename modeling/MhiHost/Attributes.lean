import MhiHost.Firehose

/-! Attributes of an element with more text behind it. `fh_xml_get_value` looks for a name in
all of the text and for the closing quote in all that follows, so that either may be found
behind the element; a byte that no name has stands between the two. -/
namespace MhiHost.Attributes
open Wire (Bytes peek)
open CString Firehose

/- The name and the closing quote stand in the element, or nothing behind it makes up for them. -/
def Own (s more key : Bytes) : Prop :=
  match behind s key with
  | some pchar => Opens pchar → quote ∈ pchar.drop 2 ∨ quote ∉ more
  | none => ∀ pchar ∈ behind more key, Opens pchar → quote ∉ pchar.drop 2

instance (s more key : Bytes) : Decidable (Own s more key) := by
  unfold Own
  split
  · infer_instance
  · infer_instance

structure Separates (q : UInt8) (key more : Bytes) : Prop where
  apart : q ∉ key
  inside : q ≠ 0
  assigns : q ≠ equals
  quotes : q ≠ quote
  behind : more.head? ≠ some quote

section Text
variable {s more key pchar : Bytes} {q : UInt8}

theorem takeQuote {a : Bytes} (apart : quote ∉ a) (b : Bytes) : (a ++ quote :: b).takeWhile (· ≠ quote) = a := by
  have all : ∀ c ∈ a, decide (c ≠ quote) = true := by
    intro c here
    refine decide_eq_true ?_
    rintro rfl
    exact apart here
  rw [List.takeWhile_append_of_pos all,List.takeWhile_cons_of_neg (by simp),List.append_nil]

theorem quotedText (clean : 0 ∉ pchar) :
    quoted pchar = if quote ∈ pchar.drop 2 then some ((pchar.drop 2).takeWhile (· ≠ quote)) else none := by
  have clean : 0 ∉ pchar.drop 2 := fun inside => clean (List.mem_of_mem_drop inside)
  unfold quoted
  revert clean
  generalize pchar.drop 2 = v
  intro clean
  split
  · rename_i holds'
    obtain ⟨a,b,rfl,apart⟩ := List.eq_append_cons_of_mem holds'
    have before : 0 ∉ a := fun inside => clean (List.mem_append_left _ inside)
    rw [foundByte apart before,takeQuote apart]
    simp
  · rename_i without
    rw [absent List.mem_cons_self without]
    rfl

theorem opensMore (sep : Separates q key more) : Opens (pchar ++ q :: more) ↔ Opens pchar := by
  unfold Opens
  match pchar with
  | [] =>
    have next : peek (q :: more) 1 ≠ quote := by
      cases more with
      | nil => exact (by decide : (0 : UInt8) ≠ quote)
      | cons c more => exact fun same => sep.behind (congrArg some same)
    have here : peek (q :: more) 0 ≠ equals := sep.assigns
    exact iff_of_false (not_or.mpr ⟨here,next⟩) (by decide)
  | [c] =>
    have next : peek (c :: q :: more) 1 ≠ quote := sep.quotes
    have none' : peek [c] 1 ≠ quote := (by decide : (0 : UInt8) ≠ quote)
    exact or_congr Iff.rfl (iff_of_false next none')
  | c::d::pchar => exact Iff.rfl

theorem quoteMore (sep : Separates q key more) : quote ∈ (pchar ++ q :: more).drop 2 ↔ quote ∈ pchar.drop 2 ∨ quote ∈ more := by
  match pchar with
  | [] =>
    cases more with
    | nil => simp
    | cons c more =>
      have other : quote ≠ c := fun same => sep.behind (congrArg some same.symm)
      simp [other]
  | [c] => simp
  | c::d::pchar => simp [sep.quotes.symm]

theorem behindMore (given : key ≠ []) (sep : Separates q key more) (clean : 0 ∉ s) :
    behind (s ++ q :: more) key = ((behind s key).map (· ++ q :: more)).or (behind more key) := by
  rw [behind,across given sep.apart sep.inside clean,behind,behind]
  cases found' : strstr s key with
  | none => rfl
  | some r =>
    have long := foundHolds found'
    simp [List.drop_append_of_le_length long]

theorem holdsMore (given : key ≠ []) (sep : Separates q key more) (clean : 0 ∉ s) :
    holds (s ++ q :: more) key = (holds s key || holds more key) := by
  rw [holds,across given sep.apart sep.inside clean,holds,holds]
  cases strstr s key with
  | none => rfl
  | some r => rfl

theorem behindClean (clean : 0 ∉ s) (found' : behind s key = some pchar) : 0 ∉ pchar := by
  obtain ⟨r,same,rfl⟩ := Option.map_eq_some_iff.mp found'
  obtain ⟨a,rfl,-,-⟩ := found same
  exact fun inside => clean (List.mem_append_right a (List.mem_of_mem_drop inside))

theorem valueNone (clean : 0 ∉ pchar) : valueAt pchar = none ↔ (Opens pchar → quote ∉ pchar.drop 2) := by
  rw [valueAt,quotedText clean]
  by_cases opens : Opens pchar
  · rw [if_pos opens]
    by_cases closes : quote ∈ pchar.drop 2
    · simp [closes,opens]
    · simp [closes]
  · simp [opens]

theorem ownValue (given : key ≠ []) (sep : Separates q key more) (clean : 0 ∉ s) (text' : 0 ∉ more) :
    valueOf (s ++ q :: more) key = valueOf s key ↔ Own s more key := by
  rw [valueOf,valueOf,behindMore given sep clean,Own]
  cases found' : behind s key with
  | none =>
    cases later : behind more key with
    | none => simp
    | some pchar =>
      have whole := valueNone (behindClean text' later)
      simpa using whole
  | some pchar =>
    have before := behindClean clean found'
    have all : 0 ∉ pchar ++ q :: more := by
      simp only [List.mem_append,List.mem_cons,not_or]
      exact ⟨before,sep.inside.symm,text'⟩
    show valueAt (pchar ++ q :: more) = valueAt pchar ↔ _
    rw [valueAt,valueAt,quotedText all,quotedText before]
    by_cases opens : Opens pchar
    · rw [if_pos ((opensMore sep).mpr opens),if_pos opens]
      by_cases closes : quote ∈ pchar.drop 2
      · rw [if_pos ((quoteMore sep).mpr (.inl closes)),if_pos closes]
        refine iff_of_true ?_ fun _ => .inl closes
        obtain ⟨c,d,tail,rfl⟩ : ∃ c d tail, pchar = c :: d :: tail := by
          rcases pchar with _ | ⟨c,_ | ⟨d,tail⟩⟩
          · cases closes
          · cases closes
          · exact ⟨c,d,tail,rfl⟩
        obtain ⟨a,b,same,apart⟩ := List.eq_append_cons_of_mem closes
        have shown : tail = a ++ quote :: b := same
        simp only [List.cons_append,List.drop_succ_cons,List.drop_zero]
        rw [shown,List.append_assoc]
        exact congrArg some ((takeQuote apart _).trans (takeQuote apart _).symm)
      · rw [if_neg closes]
        by_cases later : quote ∈ more
        · rw [if_pos ((quoteMore sep).mpr (.inr later))]
          refine iff_of_false (Option.some_ne_none _) fun own => ?_
          exact (own opens).elim closes fun none => none later
        · rw [if_neg fun both => ((quoteMore sep).mp both).elim closes later]
          exact iff_of_true rfl fun _ => .inr later
    · rw [if_neg fun both => opens ((opensMore sep).mp both),if_neg opens]
      exact iff_of_true rfl fun here => absurd here opens

theorem ownNone (clean : 0 ∉ s) (other : ¬Own s more key) : valueOf s key = none := by
  rw [Own] at other
  rw [valueOf]
  cases found' : behind s key with
  | none => rfl
  | some pchar =>
    rw [found'] at other
    refine (valueNone (behindClean clean found')).mpr fun opens closes => other fun _ => .inl closes

theorem ownMap {α : Type} (f : Bytes → α) (given : key ≠ []) (sep : Separates q key more) (clean : 0 ∉ s) (text' : 0 ∉ more) :
    (valueOf (s ++ q :: more) key).map f = (valueOf s key).map f ↔ Own s more key := by
  refine ⟨fun same => ?_,fun own => by rw [(ownValue given sep clean text').mpr own]⟩
  by_contra other
  have none' := ownNone clean other
  rw [none',Option.map_none,Option.map_eq_none_iff,← none'] at same
  exact other ((ownValue given sep clean text').mp same)

theorem ownNumber {reads : Bytes → UInt32} (given : key ≠ []) (sep : Separates q key more) (clean : 0 ∉ s) (text' : 0 ∉ more) :
    numberOf (s ++ q :: more) key reads = numberOf s key reads ↔ Own s more key ∨ numberOf (s ++ q :: more) key reads = 0 := by
  by_cases own : Own s more key
  · have same := (ownValue given sep clean text').mpr own
    exact iff_of_true (by rw [numberOf,numberOf,same]) (.inl own)
  · have zero : numberOf s key reads = 0 := by rw [numberOf,ownNone clean own]; rfl
    rw [zero,or_iff_right own]

theorem borrows (given : key ≠ []) (sep : Separates q key more) (clean : 0 ∉ s) (text' : 0 ∉ more) (stands : holds s key = true)
    (other : ¬Own s more key) : ∃ v, valueOf (s ++ q :: more) key = some v ∧ (q ∈ v ∨ v = more.takeWhile (· ≠ quote)) := by
  obtain ⟨r,found'⟩ := Option.isSome_iff_exists.mp stands
  have first : behind s key = some (r.drop key.length) := by rw [behind,found']; rfl
  generalize r.drop key.length = pchar at first
  have whole : behind (s ++ q :: more) key = some (pchar ++ q :: more) := by
    rw [behindMore given sep clean,first]
    rfl
  have all : 0 ∉ pchar ++ q :: more := by
    simp only [List.mem_append,List.mem_cons,not_or]
    exact ⟨behindClean clean first,sep.inside.symm,text'⟩
  rw [Own,first] at other
  obtain ⟨opens,rest⟩ := Classical.not_imp.mp other
  obtain ⟨unclosed,later⟩ := not_or.mp rest
  have later : quote ∈ more := not_not.mp later
  have read : valueOf (s ++ q :: more) key = some (((pchar ++ q :: more).drop 2).takeWhile (· ≠ quote)) := by
    rw [valueOf,whole,Option.bind_some,valueAt,if_pos ((opensMore sep).mpr opens),quotedText all,
      if_pos ((quoteMore sep).mpr (.inr later))]
  refine ⟨_,read,?_⟩
  rcases pchar with _ | ⟨c,_ | ⟨d,pchar⟩⟩
  · exact absurd opens (by decide)
  · exact .inr rfl
  · have before : ∀ b ∈ pchar, decide (b ≠ quote) = true := by
      intro b here
      refine decide_eq_true ?_
      rintro rfl
      exact unclosed here
    left
    show q ∈ (pchar ++ q :: more).takeWhile (· ≠ quote)
    have here : decide (q ≠ quote) = true := decide_eq_true sep.quotes
    rw [List.takeWhile_append_of_pos before,List.takeWhile_cons,if_pos here]
    exact List.mem_append_right _ List.mem_cons_self

end Text

end MhiHost.Attributes
