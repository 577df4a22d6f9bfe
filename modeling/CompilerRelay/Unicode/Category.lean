/-!
# General categories

The general category of every code point, as the Unicode standard assigns it.

**Input.**  A code point.

**Algorithm.**  The categories are kept as runs of code points of one category, written in a text: a mark
for the category, then the length of the run in base 36, which is left out where it is one.  The text is
read once into the first code points of the runs, and looking a code point up is a binary search.

**Results.**  `Category.mem_all`: the list of categories is complete.
-/

namespace CompilerRelay
namespace Unicode

/-- The general categories. -/
inductive Category where
  | uppercaseLetter
  | lowercaseLetter
  | titlecaseLetter
  | modifierLetter
  | otherLetter
  | nonspacingMark
  | spacingMark
  | enclosingMark
  | decimalNumber
  | letterNumber
  | otherNumber
  | connectorPunctuation
  | dashPunctuation
  | openPunctuation
  | closePunctuation
  | initialPunctuation
  | finalPunctuation
  | otherPunctuation
  | mathSymbol
  | currencySymbol
  | modifierSymbol
  | otherSymbol
  | spaceSeparator
  | lineSeparator
  | paragraphSeparator
  | control
  | format
  | surrogate
  | privateUse
  | unassigned
  deriving DecidableEq, Repr, Inhabited

namespace Category

/-- Every category, in the order of the marks below. -/
def all : List Category :=
  [.uppercaseLetter, .lowercaseLetter, .titlecaseLetter, .modifierLetter, .otherLetter,
   .nonspacingMark, .spacingMark, .enclosingMark, .decimalNumber, .letterNumber, .otherNumber,
   .connectorPunctuation, .dashPunctuation, .openPunctuation, .closePunctuation,
   .initialPunctuation, .finalPunctuation, .otherPunctuation, .mathSymbol, .currencySymbol,
   .modifierSymbol, .otherSymbol, .spaceSeparator, .lineSeparator, .paragraphSeparator, .control,
   .format, .surrogate, .privateUse, .unassigned]

theorem mem_all (category : Category) : category ∈ all := by
  cases category <;> simp [all]

/-- The mark of each category in the table of runs, in the order of `all`. -/
def marks : List Char :=
  "ABCDEFGHIJKLMNOPQRSTUVWXYZ!#%&".toList

/-- The category that a mark stands for. -/
def ofMark? (mark : Char) : Option Category :=
  (marks.zip all).lookup mark

/-- The short name of a category in the standard. -/
def abbreviation : Category → String
  | .uppercaseLetter => "Lu"
  | .lowercaseLetter => "Ll"
  | .titlecaseLetter => "Lt"
  | .modifierLetter => "Lm"
  | .otherLetter => "Lo"
  | .nonspacingMark => "Mn"
  | .spacingMark => "Mc"
  | .enclosingMark => "Me"
  | .decimalNumber => "Nd"
  | .letterNumber => "Nl"
  | .otherNumber => "No"
  | .connectorPunctuation => "Pc"
  | .dashPunctuation => "Pd"
  | .openPunctuation => "Ps"
  | .closePunctuation => "Pe"
  | .initialPunctuation => "Pi"
  | .finalPunctuation => "Pf"
  | .otherPunctuation => "Po"
  | .mathSymbol => "Sm"
  | .currencySymbol => "Sc"
  | .modifierSymbol => "Sk"
  | .otherSymbol => "So"
  | .spaceSeparator => "Zs"
  | .lineSeparator => "Zl"
  | .paragraphSeparator => "Zp"
  | .control => "Cc"
  | .format => "Cf"
  | .surrogate => "Cs"
  | .privateUse => "Co"
  | .unassigned => "Cn"

end Category

/-- The value of a digit in base 36. -/
def digitValue (digit : Char) : Nat :=
  if digit.isDigit then digit.toNat - '0'.toNat else digit.toNat - 'a'.toNat + 10

/-- A reader of the table: the runs read, and the category, length and first code point of the next. -/
structure RunReader where
  runs : Array (Nat × Category) := #[]
  start : Nat := 0
  category : Option Category := none
  length : Nat := 0

namespace RunReader

/-- End the run being read. -/
def close (reader : RunReader) : RunReader :=
  match reader.category with
  | none => reader
  | some category =>
      { runs := reader.runs.push (reader.start, category)
        start := reader.start + max reader.length 1 }

/-- Read one character of the table. -/
def step (reader : RunReader) (char : Char) : RunReader :=
  match Category.ofMark? char with
  | some category => { reader.close with category := some category }
  | none => { reader with length := reader.length * 36 + digitValue char }

end RunReader

/-- The runs of code points of one category, in order, as lines of text. -/
def runLines : List String :=
  ["ZwWR3TR3NORSRMR2IaR2S3R2AqNROULUBqNSOSZxWRT4VRUVEPS!VUVSK2UBR2UKEQK3RAnSA7BoSB8ABABABABA",
   "BABABABABABABABABABABABABABABABABABABABABABABAB2ABABABABABABABAB2ABABABABABABABABABABABA",
   "BABABABABABABABABABABABA2BABAB3A2BABA2BA3B2A4BA2BA3B3A2BA2BABABA2BAB2ABA2BA3BABA2B2EAB3E",
   "4ACBACBACBABABABABABABABAB2ABABABABABABABABAB2ACBABA3BABABABABABABABABABABABABABABABABAB",
   "ABABABABABABABABABABABAB7A2BA2B2ABA4BABABABAB1xE2BqDiU4DcUeD5U7DUDUhF34ABABDUAB&2DB3RA&4",
   "U2ARA3&A&A2BAh&A9BzAB2A3B3ABABABABABABABABABABABAB5ABSABA2B2A1fB1cABABABABABABABABABABAB",
   "ABABABABABABVF5H2ABABABABABABABABABABABABABABABABABABABABABABABABABABABA2BABABABABABAB2A",
   "BABABABABABABABABABABABABABABABABABABABABABABABABABABABABABABABABABABABABABABABABABABABA",
   "BABABAB&A12&2DR6B15RM&2V2T&F19MFRF2RF2RF&8Er&4E4R2&b!6S3R2TR2V2FbR!R3EwDEaFlIaR4E2FE2rRE",
   "F7!VF6D2F2VF4E2IaE3V2ERe&!EFEuFr&2E2hFbE&eIaExF9D2VR3D&2FT2EmF4DF9DF3DF5&2Rf&EpF3&2R&Eb&",
   "5EoUE7!2&5F9E15DFo!FwGE1iFGFEG3F8G4FG2EF7EaF2R2IaRDEfFG2&E8&2E2&2Em&E7&E&3E4&2FEG3F4&2G2",
   "&2G2FE&8G&4E2&E3F2&2IaE2T2K6VTERF&2F2G&E6&4E2&2Em&E7&E2&E2&E2&2F&G3F2&4F2&2F3&3F&7E4&E&7",
   "IaF2E3FR&aF2G&E9&E3&Em&E7&E2&E5&2FEG3F5&F2G&G2F&2E&fE2F2&2IaRT&7EF6&FG2&E8&2E2&2Em&E7&E2",
   "&E5&2FEGFGF4&2G2&2G2F&7F2G&4E2&E3F2&2IaVEK6&aFE&E6&3E3&E4&3E2&E&E2&3E2&3E3&3Ec&4G2FG2&3G",
   "3&G3F&2E&6G&eIaK3V6TV&5FG3FE8&E3&En&Eg&2FEF3G4&F3&F4&7F2&E3&E2&2E2F2&2Ia&7RK7VEFG2RE8&E3",
   "&En&Ea&E5&2FEGFG5&FG2&G2F2&7G2&5E3&E2F2&2Ia&E2G&cF2G2E9&E3&E15F2EG3F4&G3&G3FEV&4E3GK7E3F",
   "2&2IaK9VE6&FG2&Ei&3Eo&E9&E&2E7&3F&4G3F3&F&G8&6Ia&2G2R&cE1cFE2F7&4TE6DF8RIaR2&11E2&E&E5&E",
   "o&E&EaFE2F9E&2E5&D&F7&Ia&2E4&wEV3RfVRV3F2V6IaKaVFVFVFNONOG2E8&E10&4FeGF5RF2E5Fb&F10&V8FV",
   "6&V2R5V4R2&11E17G2F4GF6GF2G2F2EIaR6E6G2F2E4F3EG3E2G7E3F4EdFG2F2G6FEGIaG3FV2A12&A&5A&2B17",
   "RDB3E95&E4&2E7&E&E4&2E15&E4&2Ex&E4&2E7&E&E4&2Ef&E1l&E4&2E1v&2F3R9Kk&3EgVa&6A2e&2B6&2MEh8",
   "VREhWEqNO&3E23R3J3E8&7EiF3G&9EjF2GR2&9EiF2&cEd&E3&F2&cE1gF2GF7G8FG2FbR3DR3TEF&2Ia&6Ka&6R",
   "6MR4F3!FIa&6EzDE1h&7E5F2EyFE&5E1y&aEv&F3G4F2G3&4G2FG6F3&4V&3R2IaEu&2E5&bE18&4Eq&6IaK&3Vy",
   "EnF2G2F&2R2E1hGFGF7&FGFG2F8G6Fa&2FIa&6Ia&6R7DR6&2FeHFv&2Fc&kF4GE1bFGF5GFG5FG2E8&R2IaR7Va",
   "F9V9R3F2GEuGF4G2F2GF3E2IaE18FGF2G3FGF3G2&8R4E10G8F8G2F2&3R5Ia&3E3IaEuD6R2B9AB&5A17&2A3R8",
   "&8F3RFdGF7E4FE6FE2GF2E&5B18D1rBdDByD11F1sABABABABABABABABABABABABABABABABABABABABABABABA",
   "BABABABABABABABABABABABABABABABABABABABABABABABABABABABABABABABABABABABABABABABABABABABA",
   "BABABABABABABAB9ABABABABABABABABABABABABABABABABABABABABABABABABABABABABABABABABABABABAB",
   "ABABABABABABABABABABABABAB9A8B6&2A6&2B8A8B8A8B6&2A6&2B8&A&A&A&AB8A8Be&2B8C8B8C8B8C8B5&B2",
   "A4CUBU3B3&B2A4CU3B4&2B2A4&U3B8A5U3&2B3&B2A4CU2&Wb!5M6R2PQNP2QNPR8XY!5WR9PQR4L2R3SNORbSRL",
   "RaW!5&!aKD&2K6S3NODKaS3NO&Dd&3Ty&eFdH4FH3Fc&fV2AV4AV2BA3B2A3BVAV2SA5V6AVAVAVA4VBA4BE4BV2",
   "B2A2S5AB4VSV2BVKgJzABJ4KV2&4S5V5S2V4SV2SV2SV7SVvS2V2SVSVvS7gV8NONOVkS2V7NOV29SVuSpV14S6V",
   "20&mVb&lK1oV26KmV53SV9SV1iS8V33SV6wNONONONONONONOKuV18S5NOSvNONONONONOSgV74S3nNONONONONO",
   "NONONONONONOS1rNONOSwNOS76V1cSlV2S6V13&2V3uA1cB1cABA3B2ABABABA4BAB2AB6D2A3BABABABABABABA",
   "BABABABABABABABABABABABABABABABABABABABABABABABABABABABABABABABABABABABABABABABABABAB2V6",
   "ABABF3AB&5R4KR2B12&B&5B&2E1k&7DR&eFEn&9E7&E7&E7&E7&E7&E7&E7&E7&FwR2PQPQR3PQRPQR9MR2MRPQR",
   "2PQNONONONOR5DRaM2R4MRNRdV2R3NONONONOM&yVq&V2h&cV5y&qVgWR3VDEJNONONONONOV2NONONONOMNO2VJ",
   "9F4G2MD5V2J3DERV2&E2e&2F2U2D2EME2iRD3E&5E17&E2m&V2K4VaEwV12&9VEgVv&KaVuK8VKfVwKaV13KfV8w",
   "E534V1sEg7pDEvr&3V1j&9E14D6R2E7gDR3EgIaE2&kABABABABABABABABABABABABABABABABABABABABABABA",
   "BEFH3RFaRDABABABABABABABABABABABABABABD2F2E1yJaF2R6&8UnD9U2ABABABABABABAB3ABABABABABABAB",
   "ABABABABABABABABABABABABABABABABABABABABABABABABDB8ABABA2BABABABABDU2ABABEABAB3ABABABABA",
   "BABABABABABA5BA5BABABABABABABABA4BABA2BABABABABABABABA&kD4ABED2BE7FE3FE4FEnG2F2GV4F&3K6V",
   "2TV&6E1gR4&8G2E1eGgF2&8R2Ia&6FiE6R3ERE2FIaEsF8R2EnFbG2&bREt&3F3GE1bFG2F4G2F2G3Rd&DIa&4R2",
   "E5FDE9IaE5&E15F6G2F2G2F2&9E3FE8FG&2Ia&2R4EgDE6V3EGFGE1eFEF3E2F2E5F2EFE&oE2DR2EbGF2G2R2ED",
   "2GF&aE6&2E6&2E6&9E7&E7&B17UD4B9DU2&4B28EzG2FG2FG2RGF&2Ia&6E8mc&cEn&4E1d&4#1kw%4xsEa6&2E2",
   "y&12B7&cB5&5EFEaSEd&E5&E&E2&E2&E30UhVgEa3ONVgE1sV2E1iV8&wEcTV3FgR7NOR&6FgRM2L2NONONONONO",
   "NONONOR2NOR4L3R3&R4MNONONOR3SMS3&RTR2&4E5&E3r&2!&R3TR3NORSRMR2IaR2S3R2AqNROULUBqNSOSNORN",
   "OR2EaDE19D2Ev&3E6&2E6&2E6&2E3&3T2SUVT2&VS4V2&a!3V2&2Ec&Eq&Ej&E2&Ef&2Ee&yE3f&5R3&4K19&3V9",
   "J1hK4VhK2V3&Vd&3V&1bV19F&3mEt&3E1d&fFKr&4EwK4&9EkJE8J&5E12F5&5Eu&RE10&4E8RJ5&16A14B14E26",
   "&2Ia&6A10&4B10&4E14&8E1g&bRAb&Af&A7&A2&Bb&Bf&B7&B2&3E1g&cE8n&9Em&aE8&oD6&D16&D9&1xE6&2E&",
   "E18&E2&3E&2En&RK8EnV2K7Ev&8K9&1cEj&E2&5K5EmK6&3REq&5REq&12E1k&4K2E2Kg&2K1aEF3&F2&5F4E4&E",
   "3&Et&2F3&4FK9&7R9&7EtK2REtK3&wE8VEsF2&4K5R7&9E1i&3R7Em&2K8Ej&5K8Ei&7R4&cK7&28E21&1jA1f&d",
   "B1f&7K6E10F4&8Ia&6IaE4DEAm&3F5MDBm&8S2&5sKv&E16&F2M&2E2&gE3DE2&8RV8&xF6EtKaE&8EmFbK4R5&m",
   "EiF4R4&12ElK7&kEn&9GFGE1hFfR7&4KkIaFE2F2E&9F3GE19G3F4G2F2R2!R4F&a!&2Ep&7Ia&6F3E10F5GF8&I",
   "aR4EG2E&8EzFR2E&9F2GE1cG3F9G2E4R4F4RGFIaERER3&Kk&bEi&EpG3F3G2FGF2R6FE2F&1qE7&E&E4&Ef&EaR",
   "&6E1bFG3F8&5Ia&6F2G2&E8&2E2&2Em&E7&E2&E5&F2EG2FG4&2G2&2G3&2E&6G&5E5G2&2F7&3F5&bEa&E&2E&E",
   "12&EG3F6&G&2G&G4&G2FGFEFER2&R2&8F2&tE1hG3F8G2F3GFE4R5IaR2&RFE3&uE1cG3F6GFG4F2GF2E2RE&8Ia",
   "&4mE1bG3F4&2G4F2GF2RnE4F2&yE1cG3F8G2FGF2R3E&bIa&6Rd&jE17FGFG2F6GFER&6Ia&6Ik&sEr&2FGFG2F4",
   "GF5&4IaK2R3VE7&55E18G3F9GF2R&2sAwBwIaK9&cE8&2E&2E8&E2&EoG6&G2&2F2GFEGEGFR3&9Ia&1yE8&2E13",
   "G3F4&2F2G4FEREG&rEFaE14F6GEF4R8F&8EF6G2F3E1aFdGF2R3ER5&dE21&7Ra&2eFGF3GFG&2gExR&eIa&6E9&",
   "E11GF7&F6GFER5&aIaKj&3R2Eu&2Fm&GF7GF2GF2&21E7&E2&E12F6&3F&F2&F7EF&8Ia&6E6&E2&EwG5&F2&G2F",
   "GFE&7Ia&6E15DE2&4Ia&6uEjF2G2R2&7F2EGEd&EyG2F5&3G2FGFRdIaF&2dE&fKlV8T4Vh&dREpm&2uJ33&R5&b",
   "E5g&218E2pR2&dEts!gFE6Ff&aE32z&5Eg7&5a1EuFcG3F3Ia&1c6Eft&7Ev&Ia&4R2E27&Ia&6Eu&2F5R&aE1cF",
   "7R5V4D4RV&aIa&K7&El&5Ej&c0D3E14D2R3Ia&5iAwBwKnR4&5Ap&2Bp&18E23&4FEG1j&7F4Dd&1sD2RDF&bG2D",
   "2J3&9E5p2&15Ew&2pE37&6ppD4&D7&D2&E83&fE&tE3&2E&eE4&8Eb0&1s4E2z&5Ed&3E9&7Ea&2VF2R!4&318V6",
   "oIaV3&3Vc4&6Vn&fVgS&fF1a&2Fn&9V38&1oV6u&aV13&2V1oG2F3V3G6!8F8V2F7VuF4V1p&lV1uF3V&3eKk&cK",
   "k&cV2f&9Kp&3rAqBqAqB7&BiAqBqA&A2&2A&2A2&2A4&A8B4&B&B7&BbAqBqA2&A4&2A8&A7&BqA2&A4&A5&A&3A",
   "7&BqAqBqAqBqAqBqAqBqAqBqAqBs&2ApSBpSB6ApSBpSB6ApSBpSB6ApSBpSB6ApSBpSB6AB&2I1eVe8F1jV4F1e",
   "V8FVeFV2R5&fF5&Ff&uoBaEBk&6B6&5xF7&Fh&2F7&F2&F5&5D1q&xF&34E19&3F7D7&2Ia&4EV&8wEuF&hE18F4",
   "Ia&5T&cwErDF4Ia&5yEuF2EIa&4R&5cEv&E3FE2FE7F2E5F&8ED&68E7&E4&E2&Ef&E5h&2K9F7&15AyByF7D&4I",
   "a&4R2&ltK1nVK3TK4&24K19VKf&5eE4&Er&E2&E&2E&Ea&E4&E&E&6E&4E&E&E&E3&E2&E&2E&E&E&E&E&E2&E&2",
   "E4&E7&E4&E4&E&Ea&Eh&5E3&E5&Eh&1gS2&7iV18&4V2s&cVf&2Vf&Vf&V11&aKdV4h&1kVt&dV18&4V9&7V2&eV",
   "6&4aV6zU5Vk9&3Vh&3Vd&3V62&6Vc&4V&fVc&4V1k&8Va&6V14&8Vu&2Vc&4V2&eS9&13V9k&8Ve&2Vd&3Vb&3V1",
   "l&V&4Vg&2Vc&4Va&7V43&V2kIaV&slEwyo&wE3dq&2E4ge&2E5rl&fEha&1wiEf2&15uE3t7&5E6ju&f5vr!&u!2",
   "o&3kF6o&1e6o%1eke&2%1eke&2"]

/-- The first code point and the category of every run, in order. -/
def runs : Array (Nat × Category) :=
  (runLines.foldl (fun reader (line : String) => line.toList.foldl RunReader.step reader) ({} : RunReader)).close.runs

/-- Search the run of a code point among the runs from `low` on and before `high`. -/
def searchRun (code : Nat) : Nat → Nat → Nat → Category
  | 0, low, _ => (runs.getD low (0, .unassigned)).2
  | fuel + 1, low, high =>
      if high ≤ low + 1 then (runs.getD low (0, .unassigned)).2
      else
        let middle := (low + high) / 2
        if (runs.getD middle (0, .unassigned)).1 ≤ code then searchRun code fuel middle high
        else searchRun code fuel low middle

/-- The general category of a character. -/
def category (char : Char) : Category :=
  searchRun char.toNat 16 0 runs.size

end Unicode
end CompilerRelay
