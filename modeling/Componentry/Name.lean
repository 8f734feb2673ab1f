/-!
# Componentry.Name

Names of components. A component is registered under a plain name. The same name behind the mark
`&` refers to the factory that a component is, not to what the factory makes, so a registered name
is never empty and never starts with the mark.

`baseName` forgets the mark and `factoryName` adds it: `baseName_factoryName`,
`isFactoryName_factoryName`; a name without the mark is its own base (`baseName_of_unmarked`).
-/

namespace Componentry

def factoryMark : Char := '&'

/-- Whether a name refers to a factory itself: it starts with the mark. -/
def isFactoryName (name : String) : Bool := name.toList.head? == some factoryMark

/-- The name behind the mark, if there is one. Only one mark is taken off. -/
def baseName (name : String) : String :=
  if isFactoryName name then String.ofList name.toList.tail else name

def factoryName (name : String) : String := String.ofList (factoryMark :: name.toList)

def isValidName (name : String) : Bool := name != "" && !isFactoryName name

@[simp] theorem isFactoryName_factoryName (name : String) :
    isFactoryName (factoryName name) = true := by
  simp [isFactoryName, factoryName]

@[simp] theorem baseName_factoryName (name : String) : baseName (factoryName name) = name := by
  rw [baseName, isFactoryName_factoryName]
  simp [factoryName]

theorem baseName_of_unmarked {name : String} (h : isFactoryName name = false) :
    baseName name = name := by
  simp [baseName, h]

theorem factoryName_baseName {name : String} (h : isFactoryName name = true) :
    factoryName (baseName name) = name := by
  have hd : name.toList.head? = some factoryMark := by simpa [isFactoryName] using h
  obtain ⟨rest, hr⟩ := List.head?_eq_some_iff.1 hd
  rw [baseName, if_pos h, factoryName, hr, List.tail_cons, String.toList_ofList, ← hr,
    String.ofList_toList]

end Componentry
