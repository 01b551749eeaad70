import ModuleSplit.Proofs.Declaration.Phrase

namespace ModuleSplit

open List Text Phrase Option

theorem Patterns.findWrapper?_read {α : Type} {p : Patterns} {read : Text → Option α} {t : Text}
    {a : α} (found : p.findWrapper? read t = some a) : ∃ s, read s = some a := by
  unfold Patterns.findWrapper? at found
  split at found
  · cases found
  · obtain ⟨_, _, found⟩ := exists_of_findSome?_eq_some found
    obtain ⟨s, _, read⟩ := bind_eq_some_iff.mp found
    exact ⟨s, read⟩

namespace Declaration

variable {code n : Text} {form : BindingForm}

theorem describe_names {p : Patterns} {next : Text} (declares : (describe p code next).names ≠ []) :
    (∃ form, typeForm? code = some form ∧ form.name.isSome) ∨ (bindingForm? code).isSome ∨
      (∃ form, functionForm? code = some form ∧ form.name.isSome) ∨
      (∃ form, classForm? code = some form ∧ form.name.isSome) ∨ (exportDefaultRest? code).isSome := by
  unfold describe at declares
  split at declares
  · exact absurd rfl declares
  split at declares
  · exact absurd rfl declares
  split at declares
  · left
    simpa [describeType, isSome_iff_ne_none] using declares
  right
  split at declares
  · rename_i form found
    exact .inl (by rw [found]; rfl)
  right
  split at declares
  · rename_i form found
    exact .inl ⟨form, found, by simpa [describeFunction, isSome_iff_ne_none] using declares⟩
  right
  split at declares
  · rename_i form found
    exact .inl ⟨form, found, by simpa [describeClass, isSome_iff_ne_none] using declares⟩
  right
  split at declares
  · rename_i rest found
    rw [found]
    rfl
  · exact absurd rfl declares

theorem describeBinding_isDeclaration (code next : Text) (p : Patterns) (form : BindingForm) :
    (describeBinding code next p form).kind.isDeclaration = true ∧ (describeBinding code next p form).exportList = false := by
  unfold describeBinding
  dsimp only
  generalize isFunctionInitializer p _ = function
  cases function <;> exact ⟨rfl, rfl⟩

theorem describe_isDeclaration (p : Patterns) (code next : Text) : (describe p code next).names ≠ [] →
      (describe p code next).kind.isDeclaration = true ∧ (describe p code next).exportList = false := by
  unfold describe
  split
  · exact fun declares => absurd rfl declares
  split
  · exact fun declares => absurd rfl declares
  split
  · exact fun _ => ⟨rfl, rfl⟩
  split
  · exact fun _ => describeBinding_isDeclaration _ _ _ _
  split
  · exact fun _ => ⟨rfl, rfl⟩
  split
  · exact fun _ => ⟨rfl, rfl⟩
  split
  · unfold describeDefault
    split
    · exact fun _ => ⟨rfl, rfl⟩
    · split <;> exact fun declares => absurd rfl declares
  · exact fun declares => absurd rfl declares

theorem typeForm?_isName {form : TypeForm} (found : typeForm? code = some form) (named : form.name = some n) : IsName n := by
  have body : ∀ {word : String} {t : Text}, namedBody? word t = some form → IsName n := by
    intro word t found
    obtain ⟨_, _, found⟩ := bind_eq_some_iff.mp found
    obtain ⟨name, read, same⟩ := bind_eq_some_iff.mp found
    cases same
    cases named
    exact identName?_isName read
  unfold typeForm? at found
  simp only [orElse_eq_orElse, orElse_eq_or, or_eq_some_iff] at found
  rcases found with interface | ⟨_, enum | ⟨_, alias_ | ⟨_, space | ⟨_, module⟩⟩⟩⟩
  · exact body interface
  · exact body enum
  · obtain ⟨_, _, found⟩ := bind_eq_some_iff.mp alias_
    obtain ⟨⟨name, rest⟩, read, found⟩ := bind_eq_some_iff.mp found
    dsimp only at found
    split at found <;> cases found <;> cases named <;> exact ident?_isName read
  · exact body space
  · obtain ⟨rest, _, found⟩ := bind_eq_some_iff.mp module
    split at found
    · rename_i name read
      cases found
      cases named
      exact identName?_isName read
    · split at found <;> cases found
      cases named

theorem bindingRest?_target {exported : Bool} {target rest : Text}
    (found : bindingRest? exported target rest = some form) : form.target = target := by
  unfold bindingRest? at found
  split at found
  · obtain ⟨_, _, same⟩ := bind_eq_some_iff.mp found
    cases same
    rfl
  · obtain ⟨_, _, same⟩ := bind_eq_some_iff.mp found
    cases same
    rfl

theorem patternBinding?_target {exported : Bool} {opener closer : Char} {body : Text}
    (found : patternBinding? exported opener closer body = some form) :
    ∃ rest, form.target = opener :: rest := by
  unfold patternBinding? at found
  simp only [orElse_eq_orElse, orElse_eq_or, or_eq_some_iff] at found
  rcases found with whole | ⟨_, part⟩
  · split at whole
    · exact ⟨_, bindingRest?_target whole⟩
    · cases whole
  · obtain ⟨_, _, part⟩ := exists_of_findSome?_eq_some part
    exact ⟨_, bindingRest?_target part⟩

theorem bindingForm?_target (found : bindingForm? code = some form) :
    (∃ rest, form.target = '{' :: rest ∨ form.target = '[' :: rest) ∨ IsName form.target := by
  unfold bindingForm? at found
  obtain ⟨rest, _, found⟩ := bind_eq_some_iff.mp found
  unfold bindingTarget? at found
  split at found
  · obtain ⟨rest, same⟩ := patternBinding?_target found
    exact .inl ⟨rest, .inl same⟩
  · obtain ⟨rest, same⟩ := patternBinding?_target found
    exact .inl ⟨rest, .inr same⟩
  · obtain ⟨⟨name, tail⟩, read, found⟩ := bind_eq_some_iff.mp found
    rw [bindingRest?_target found]
    exact .inr (ident?_isName read)

theorem destructuredNames_isName (target : Text) : ∀ n ∈ destructuredNames target, IsName n := by
  intro n member
  obtain ⟨entry, _, found⟩ := mem_filterMap.mp member
  unfold boundName? at found
  obtain ⟨whole, same⟩ := ite_none_right_eq_some.mp found
  cases same
  exact isIdent_isName whole

theorem describeBinding_isName {next : Text} {p : Patterns}
    (target : (∃ rest, form.target = '{' :: rest ∨ form.target = '[' :: rest) ∨ IsName form.target) :
    ∀ n ∈ (describeBinding code next p form).names, IsName n := by
  unfold describeBinding
  dsimp only
  generalize isFunctionInitializer p _ = function
  cases function
  all_goals
    simp only [reduceIte, Bool.false_eq_true]
    split
    · exact destructuredNames_isName _
    · exact destructuredNames_isName _
    · rename_i brace bracket
      rcases target with ⟨rest, same | same⟩ | isName
      · exact absurd same (brace rest)
      · exact absurd same (bracket rest)
      · simpa using isName

theorem functionForm?_isName {form : FunctionForm}
    (found : functionForm? code = some form) (named : form.name = some n) : IsName n := by
  obtain ⟨rest, _, same⟩ := bind_eq_some_iff.mp found
  cases same
  exact identName?_isName named

theorem classForm?_isName {form : FunctionForm}
    (found : classForm? code = some form) (named : form.name = some n) : IsName n := by
  obtain ⟨rest, _, same⟩ := bind_eq_some_iff.mp found
  cases same
  obtain ⟨behind, _, read⟩ := bind_eq_some_iff.mp named
  obtain ⟨_, read⟩ := ite_none_left_eq_some.mp read
  exact identName?_isName read

theorem describe_isName (p : Patterns) (code next : Text) : ∀ n ∈ (describe p code next).names, IsName n := by
  unfold describe
  split
  · exact fun _ member => nomatch member
  split
  · exact fun _ member => nomatch member
  split
  · intro n member
    obtain ⟨form, found, named⟩ := bind_eq_some_iff.mp (mem_toList.mp member)
    exact typeForm?_isName found named
  split
  · rename_i form found
    exact describeBinding_isName (bindingForm?_target found)
  split
  · rename_i form found
    exact fun n member => functionForm?_isName found (mem_toList.mp member)
  split
  · rename_i form found
    exact fun n member => classForm?_isName found (mem_toList.mp member)
  split
  · unfold describeDefault
    split
    · rename_i name found
      intro n member
      cases mem_toList.mp member
      obtain ⟨s, read⟩ := Patterns.findWrapper?_read found
      obtain ⟨tail, _, read⟩ := bind_eq_some_iff.mp read
      exact identName?_isName (Option.some.inj read)
    · split <;> exact fun _ member => nomatch member
  · exact fun _ member => nomatch member

end Declaration

namespace Block

variable {line t rest : Text} {word : String}

theorem isPromotable_keyword (listed : word ∈ promotableKeywords)
    (found : (keyword? word (skipSpaced "declare" line)).isSome) : isPromotable line = true := by
  have some : (promotableKeywords.any fun word => (keyword? word (skipSpaced "declare" line)).isSome) = true :=
    any_eq_true.mpr ⟨word, listed, found⟩
  simp [isPromotable, some]

theorem promotableKeywords_apart : ∀ word ∈ promotableKeywords, apart "declare" word = true := by
  decide

theorem isPromotable_spaced (listed : word ∈ promotableKeywords)
    (found : (spaced? word (skipSpaced "declare" t)).isSome) (more : Text) : isPromotable (t ++ more) = true := by
  obtain ⟨rest, found⟩ := isSome_iff_exists.mp found
  obtain ⟨c, tail, _, same, _⟩ := spaced?_eq_some.mp found
  refine isPromotable_keyword listed ?_
  rw [skipSpaced_append (promotableKeywords_apart word listed) same]
  have longer := spaced?_isSome_append (isSome_of_eq_some found) more
  exact keyword?_of_spaced? (some_get longer).symm

theorem isPromotable_over (listed : word ∈ promotableKeywords)
    (found : keyword? word (skipSpaced "declare" t) = some rest) (left : rest ≠ []) (more : Text) :
    isPromotable (t ++ more) = true := by
  obtain ⟨same, _⟩ := keyword?_eq_some.mp found
  refine isPromotable_keyword listed ?_
  rw [skipSpaced_append (promotableKeywords_apart word listed) same, keyword?_append found left]
  rfl

theorem isPromotable_async (found : ((spaced? "async" (skipSpaced "declare" line)).bind (keyword? "function")).isSome) :
    isPromotable line = true := by
  simp [isPromotable, found]

theorem isPromotable_abstract (found : ((spaced? "abstract" (skipSpaced "declare" line)).bind (keyword? "class")).isSome) :
    isPromotable line = true := by
  simp [isPromotable, found]

theorem isPromotable_modified {modifier : String} (accepts : ∀ line,
      ((spaced? modifier (skipSpaced "declare" line)).bind (keyword? word)).isSome → isPromotable line = true)
    (words : apart "declare" modifier = true) (listed : word ∈ promotableKeywords)
    (found : keyword? word (skipSpaced modifier (skipSpaced "declare" t)) = some rest)
    (left : rest ≠ []) (more : Text) : isPromotable (t ++ more) = true := by
  cases modified : spaced? modifier (skipSpaced "declare" t) with
  | none =>
    rw [skipSpaced, modified, getD_none] at found
    exact isPromotable_over listed found left more
  | some behind =>
    rw [skipSpaced, modified, getD_some] at found
    obtain ⟨same, _⟩ := keyword?_eq_some.mp found
    obtain ⟨c, tail, _, front, _⟩ := spaced?_eq_some.mp modified
    refine accepts _ ?_
    rw [skipSpaced_append words front, spaced?_append modified (by simp [same, left]) more, bind_some, keyword?_append found left]
    rfl

theorem isTypeName_append (named : isTypeName t = true) (more : Text) : isTypeName (t ++ more) = true := by
  unfold isTypeName at named ⊢
  obtain ⟨c, inside, word⟩ := any_eq_true.mp named
  rw [takeWhile_append]
  split
  · have member := (List.takeWhile_prefix isIdentChar).subset inside
    exact any_eq_true.mpr ⟨c, mem_append_left _ member, word⟩
  · exact named

theorem isPromotable_type (found : spaced? "type" (skipSpaced "declare" t) = some rest) (named : isTypeName rest = true)
    (more : Text) : isPromotable (t ++ more) = true := by
  have left : rest ≠ [] := by
    rintro rfl
    cases named
  obtain ⟨c, tail, _, same, _⟩ := spaced?_eq_some.mp found
  unfold isPromotable
  dsimp only
  rw [skipSpaced_append (by decide) same, spaced?_append found left]
  simp [isTypeName_append named]

@[simp] theorem isPromotable_export (rest : Text) : isPromotable ("export".toList ++ rest) = false := rfl

end Block

namespace Declaration

structure Exportable (p : Patterns) (code : Text) : Prop where
  declares : (describe p code []).names ≠ []
  typeName : (spaced? "type" (afterModifiers code)).all Block.isTypeName = true
  noModule : spaced? "module" (afterModifiers code) = none
  noDefault : spaced? "default" code = none

instance (p : Patterns) (code : Text) : Decidable (Exportable p code) :=
  decidable_of_iff ((describe p code []).names ≠ [] ∧
      (spaced? "type" (afterModifiers code)).all Block.isTypeName = true ∧
      spaced? "module" (afterModifiers code) = none ∧ spaced? "default" code = none)
    ⟨fun ⟨declares, typeName, noModule, noDefault⟩ => ⟨declares, typeName, noModule, noDefault⟩,
      fun ⟨declares, typeName, noModule, noDefault⟩ => ⟨declares, typeName, noModule, noDefault⟩⟩

variable {p : Patterns} {code : Text}

theorem afterModifiers_eq (unexported : spaced? "export" code = none) (noDefault : spaced? "default" code = none) :
    afterModifiers code = skipSpaced "declare" code := by
  unfold afterModifiers
  rw [skipSpaced, skipSpaced, skipSpaced]
  simp [unexported, noDefault, skipSpaced]

theorem namedBody?_spaced {word : String} {form : TypeForm} (found : namedBody? word code = some form) :
    (spaced? word code).isSome := by
  obtain ⟨rest, read, _⟩ := bind_eq_some_iff.mp found
  rw [read]
  rfl

theorem typeForm?_promotable {form : TypeForm} (exportable : Exportable p code)
    (unexported : spaced? "export" code = none) (found : typeForm? code = some form) (more : Text) :
    Block.isPromotable (code ++ more) = true := by
  have behind := afterModifiers_eq unexported exportable.noDefault
  unfold typeForm? at found
  simp only [orElse_eq_orElse, orElse_eq_or, or_eq_some_iff, behind] at found
  rcases found with named | ⟨_, enum | ⟨_, alias_ | ⟨_, named | ⟨_, module⟩⟩⟩⟩
  · exact Block.isPromotable_spaced (by decide) (namedBody?_spaced named) more
  · have spaced := namedBody?_spaced enum
    cases const : spaced? "const" (skipSpaced "declare" code) with
    | none =>
      rw [skipSpaced, const, getD_none] at spaced
      exact Block.isPromotable_spaced (by decide) spaced more
    | some rest => exact Block.isPromotable_spaced (by decide) (isSome_of_eq_some const) more
  · obtain ⟨rest, spaced, _⟩ := bind_eq_some_iff.mp alias_
    have named := exportable.typeName
    rw [behind, spaced] at named
    exact Block.isPromotable_type spaced named more
  · exact Block.isPromotable_spaced (by decide) (namedBody?_spaced named) more
  · obtain ⟨rest, spaced, _⟩ := bind_eq_some_iff.mp module
    rw [← behind, exportable.noModule] at spaced
    cases spaced

theorem bindingForm?_promotable (unexported : spaced? "export" code = none)
    (found : (bindingForm? code).isSome) (more : Text) : Block.isPromotable (code ++ more) = true := by
  obtain ⟨form, found⟩ := isSome_iff_exists.mp found
  unfold bindingForm? at found
  obtain ⟨rest, spaced, _⟩ := bind_eq_some_iff.mp found
  have behind : skipSpaced "export" code = code := by rw [skipSpaced, unexported, getD_none]
  simp only [orElse_eq_orElse, orElse_eq_or, or_eq_some_iff, behind] at spaced
  rcases spaced with spaced | ⟨_, spaced | ⟨_, spaced⟩⟩ <;>
    exact Block.isPromotable_spaced (by decide) (isSome_of_eq_some spaced) more

-- A name follows the word, so the word does not end the line.
theorem functionForm?_promotable {form : FunctionForm} (unexported : spaced? "export" code = none)
    (noDefault : spaced? "default" code = none) (found : functionForm? code = some form)
    (named : form.name.isSome) (more : Text) : Block.isPromotable (code ++ more) = true := by
  unfold functionForm? at found
  rw [afterModifiers_eq unexported noDefault] at found
  obtain ⟨rest, ended, same⟩ := bind_eq_some_iff.mp found
  cases same
  refine Block.isPromotable_modified (fun _ => Block.isPromotable_async) (by decide) (by decide) ended ?_ more
  rintro rfl
  cases named

theorem classForm?_promotable {form : FunctionForm} (unexported : spaced? "export" code = none)
    (noDefault : spaced? "default" code = none) (found : classForm? code = some form)
    (named : form.name.isSome) (more : Text) : Block.isPromotable (code ++ more) = true := by
  unfold classForm? at found
  rw [afterModifiers_eq unexported noDefault] at found
  obtain ⟨rest, ended, same⟩ := bind_eq_some_iff.mp found
  cases same
  refine Block.isPromotable_modified (fun _ => Block.isPromotable_abstract) (by decide) (by decide) ended ?_ more
  rintro rfl
  cases named

-- What declares names takes the word `export`, however the line goes on.
theorem Exportable.promotable (exportable : Exportable p code)
    (unexported : spaced? "export" code = none) (more : Text) : Block.isPromotable (code ++ more) = true := by
  rcases describe_names exportable.declares with
    ⟨form, type, _⟩ | binding | ⟨form, function, named⟩ | ⟨form, class_, named⟩ | default
  · exact typeForm?_promotable exportable unexported type more
  · exact bindingForm?_promotable unexported binding more
  · exact functionForm?_promotable unexported exportable.noDefault function named more
  · exact classForm?_promotable unexported exportable.noDefault class_ named more
  · simp [exportDefaultRest?, unexported] at default

end Declaration

end ModuleSplit
