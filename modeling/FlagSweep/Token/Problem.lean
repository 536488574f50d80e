import FlagSweep.Text.Span
/-!
What can be wrong with a program text. A fault is a problem at a span; every problem is named for its
cause and worded in `Problem.message`.
-/

namespace FlagSweep

/-- A reason why a text is no program. -/
inductive Problem where
  -- any token
  | unexpectedEnd
  | expectedToken (want got : String)
  | unexpectedToken (got want : String)
  | unexpectedCharacter (shown : String)
  | unexpectedWithChoices (choices : List String)
  -- comments, words and literals
  | legacyComment
  | unterminatedComment
  | unterminatedString
  | unterminatedRegexp
  | unterminatedTemplate
  | unterminatedJsx
  | invalidStringEscape
  | badEscape (want : String)
  | invalidUnicodeEscape
  | expectedUnicodeEscape
  | invalidIdentCharacter
  | escapeInReservedWord (word : String)
  | legacyOctal
  | octalNumber
  | legacyDecimal
  | misplacedSeparator
  | expectedDigit (base : Nat)
  | exponentWithoutDigits
  | identAfterNumber
  | duplicateRegexpFlag (flag : String)
  | unknownRegexpFlags
  | conflictMarker
  -- names
  | expectedIdent
  | expectedIdentifier
  | strictIdent (word : String)
  | awaitIdent
  | evalOrArguments
  | argumentsInField
  | reservedShorthand
  | spaceAfterHash
  -- expressions
  | expressionExpected
  | invalidTarget
  | notAssignable
  | targetNotReference
  | strictArguments
  | unaryInPower
  | mixedNullish
  | invalidPattern
  | emptyParens
  | spreadInParens
  | assignInObject
  | arrowNotAllowed
  | lineBreakBeforeArrow
  | newTargetOutside
  | importMisuse
  | superOutside
  | superCallMisuse
  | superPrivateName
  | superCallOptional
  | chainAfterNew
  | templateInChain
  | trailingCommaInImport
  | awaitStar
  | awaitOutsideAsync
  | awaitInParameter
  | yieldInParameter
  | deleteIdent
  | deleteNonReference
  | getterParameter
  | setterParameter
  | restInSetter
  | optionalObjectMember
  | commaInComputedName
  | nonNullNotAllowed (word : String)
  | strictDirectiveWithParameters
  -- patterns and parameters
  | restNotLast
  | restParameterNotLast
  | commaAfterRest
  | restWithDefault
  | restOptional
  | dotsWithoutIdent
  | optionalWithDefault
  | optionalPattern
  | defaultInDeclaration
  | parameterProperty
  | parameterPropertyPattern
  | annotationAfterDefault
  -- statements
  | semicolonExpected
  | expectedStatementEnd
  | declarationNotAllowed
  | trailingComma
  | emptyDeclaration
  | constWithoutValue
  | patternWithoutValue
  | returnOutside
  | breakOutside
  | breakLabel
  | continueOutside
  | jumpAcrossFunction
  | labelTaken (label : String)
  | labelledFunction
  | withInStrict
  | withUnsupported
  | lineBreakInThrow
  | severalDefaults
  | severalLoopVariables
  | valueInLoopHead
  | awaitLoop
  | asyncLoopVariable
  | annotatedLoopVariable
  | patternInForIn
  | resourcesDisabled
  | resourceInForIn
  | resourcePattern
  | resourceWithoutValue
  -- modules
  | nestedImportExport
  | exportNeedsFrom (word : String)
  | importReserved
  | importBindingString (text : String)
  | exportBindingString
  | duplicateTypeImport
  | duplicateTypeExport
  -- classes
  | extendsTwice
  | extendsSeveral
  | implementsTwice
  | invalidClassName
  | constructorAccessor
  | constructorField
  | constructorGenerator
  | constructorAsync
  | constructorTwice
  | constructorTypeParams
  | constructorResultType
  | constructorPrivate
  | constructorModifier (word : String)
  | abstractBody
  | abstractValue
  | abstractOutside
  | abstractPlace
  | readonlyMethod
  | readonlyAccessor
  | overrideWithoutSuper
  | privateModifier (word : String)
  | privateAccess
  | modifierOrder (first second : String)
  | modifierTwice (word : String)
  | modifierPlace (word : String)
  | modifierHere
  | modifierConflict (first second : String)
  | asyncModifier
  -- types
  | stringExpected
  | emptyTypeParams
  | bodyInDeclaration
  | declareInAmbient
  | interfaceName
  | interfaceExtends
  | enumComputedName
  | enumNumericName
  | indexParameters
  | requiredAfterOptional
  | typeParamModifier (word : String)
  | typeParamModifierPlace (word : String)
  | constModifierPlace (word : String)
  | privateInInterface
  -- elements
  | emptyJsxAttr
  | invalidJsxValue
  | closingTag (name : String)
  | closingFragment
  -- nesting
  | tooDeep
  deriving DecidableEq, Inhabited

namespace Problem

/-- The words of a problem. -/
def message : Problem → String
  | unexpectedEnd => "Unexpected eof"
  | expectedToken want got => "Expected '" ++ want ++ "', got '" ++ got ++ "'"
  | unexpectedToken got want => "Unexpected token `" ++ got ++ "`. Expected " ++ want
  | unexpectedCharacter shown => "Unexpected character " ++ shown
  | unexpectedWithChoices choices =>
    "Unexpected token. Did you mean " ++ " or ".intercalate choices ++ "?"
  | legacyComment => "Legacy comments cannot be used in module code"
  | unterminatedComment => "Unterminated block comment"
  | unterminatedString => "Unterminated string constant"
  | unterminatedRegexp => "Unterminated regexp literal"
  | unterminatedTemplate => "Unterminated template"
  | unterminatedJsx => "Unterminated JSX contents"
  | invalidStringEscape => "Invalid string escape"
  | badEscape want => "Bad character escape sequence, expected " ++ want
  | invalidUnicodeEscape => "Invalid unicode escape"
  | expectedUnicodeEscape => "Expected unicode escape"
  | invalidIdentCharacter => "Invalid character in identifier"
  | escapeInReservedWord w => "Unexpected escape sequence in reserved word: " ++ w
  | legacyOctal => "Legacy octal escape is not permitted in strict mode"
  | octalNumber => "Octal literals are not available when targeting ECMAScript 5 and higher"
  | legacyDecimal => "Legacy decimal escape is not permitted in strict mode"
  | misplacedSeparator => "A numeric separator is only allowed between two digits"
  | expectedDigit base =>
    match base with
    | 2 => "Expected a binary digit"
    | 8 => "Expected an octal digit"
    | 10 => "Expected a decimal digit"
    | 16 => "Expected a hexadecimal digit"
    | _ => "Expected a digit"
  | exponentWithoutDigits => "Expected +, - or decimal digit after e"
  | identAfterNumber => "Identifier cannot follow number"
  | duplicateRegexpFlag flag => "Duplicated regular expression flag '" ++ flag ++ "'."
  | unknownRegexpFlags => "Unknown regular expression flags."
  | conflictMarker => "Merge conflict marker encountered."
  | expectedIdent => "Expected ident"
  | expectedIdentifier => "Expected an identifier"
  | strictIdent w => "`" ++ w ++ "` cannot be used as an identifier in strict mode"
  | awaitIdent => "`await` cannot be used as an identifier in an async context"
  | evalOrArguments =>
    "'eval' and 'arguments' cannot be used as a binding identifier in strict mode"
  | argumentsInField => "'arguments' is only allowed in functions and class methods"
  | reservedShorthand => "Cannot use a reserved word as a shorthand property"
  | spaceAfterHash => "Unexpected space between # and identifier"
  | expressionExpected => "Expression expected"
  | invalidTarget => "Invalid assignment target"
  | notAssignable => "Cannot assign to this"
  | targetNotReference =>
    "The left-hand side of an assignment expression must be a variable or a property access."
  | strictArguments => "Invalid use of 'arguments' in strict mode"
  | unaryInPower => "'**' cannot be applied to unary/await expression."
  | mixedNullish => "Nullish coalescing operator(??) requires parens when mixing with logical operators"
  | invalidPattern => "Not a pattern"
  | emptyParens => "Parenthesized expression cannot be empty"
  | spreadInParens => "Parenthesized expression cannot contain spread operator"
  | assignInObject => "assignment property is invalid syntax"
  | arrowNotAllowed => "An arrow function is not allowed here"
  | lineBreakBeforeArrow => "Unexpected line break between arrow head and arrow"
  | newTargetOutside =>
    "'new.target' is only allowed in the body of a function declaration, function expression, or class."
  | importMisuse => "Invalid import expression"
  | superOutside => "Invalid access to super"
  | superCallMisuse => "Invalid `super()`"
  | superPrivateName => "Index super with private name is not allowed"
  | superCallOptional => "Super call cannot be optional"
  | chainAfterNew => "Constructor in/after an optional chaining is not allowed."
  | templateInChain => "Tagged template in optional chain is not allowed."
  | trailingCommaInImport => "Trailing comma is disallowed inside import(...) arguments"
  | awaitStar =>
    "await* has been removed from the async functions proposal. Use Promise.all() instead."
  | awaitOutsideAsync => "await isn't allowed in non-async function"
  | awaitInParameter => "`await` expressions cannot be used in a parameter initializer."
  | yieldInParameter => "'yield' cannot be used as a parameter within generator"
  | deleteIdent => "'delete' cannot be called on an identifier in strict mode"
  | deleteNonReference => "The operand of a delete operator must be a property reference."
  | getterParameter => "A `get` accessor cannot have parameters"
  | setterParameter => "A `set` accessor must have exactly one parameter"
  | restInSetter => "Rest pattern is not allowed in setter"
  | optionalObjectMember => "An object member cannot be declared optional"
  | commaInComputedName => "A comma expression is not allowed in a computed property name"
  | nonNullNotAllowed w => "Typescript non-null assertion operator is not allowed with '" ++ w ++ "'"
  | strictDirectiveWithParameters =>
    "Illegal 'use strict' directive in function with non-simple parameter list."
  | restNotLast => "Rest element must be final element"
  | restParameterNotLast => "A rest parameter must be last in a parameter list"
  | commaAfterRest => "Trailing comma isn't permitted after a rest element"
  | restWithDefault => "A rest parameter cannot have an initializer"
  | restOptional => "A rest parameter cannot be optional"
  | dotsWithoutIdent => "`...` must be followed by an identifier in declaration contexts"
  | optionalWithDefault => "Parameter cannot have question mark and initializer"
  | optionalPattern =>
    "A binding pattern parameter cannot be optional in an implementation signature."
  | defaultInDeclaration =>
    "A parameter initializer is only allowed in a function or constructor implementation"
  | parameterProperty => "A parameter property is only allowed in a constructor implementation"
  | parameterPropertyPattern =>
    "Typescript parameter property must be an identifier or assignment pattern"
  | annotationAfterDefault => "Type annotations must come before default assignments"
  | semicolonExpected => "Expected a semicolon"
  | expectedStatementEnd => "Expected ';', '\x7d' or <eof>"
  | declarationNotAllowed => "Declaration is not allowed"
  | trailingComma => "Trailing comma is not allowed"
  | emptyDeclaration => "Variable declaration list cannot be empty"
  | constWithoutValue => "'const' declarations must be initialized"
  | patternWithoutValue => "Destructuring bindings require initializers"
  | returnOutside => "Return statement is not allowed here"
  | breakOutside =>
    "A 'break' statement can only be used within an enclosing iteration or switch statement"
  | breakLabel => "A 'break' statement can only jump to a label of an enclosing statement"
  | continueOutside =>
    "A 'continue' statement can only jump to a label of an enclosing iteration statement"
  | jumpAcrossFunction => "Jump target cannot cross function boundary"
  | labelTaken l => "Label " ++ l ++ " is already declared"
  | labelledFunction => "Function cannot be labelled in strict mode"
  | withInStrict => "With statement are not allowed in strict mode"
  | withUnsupported =>
    "The 'with' statement is not supported. All symbols in a 'with' block will have type 'any'."
  | lineBreakInThrow => "LineBreak cannot follow 'throw'"
  | severalDefaults => "A switch block cannot have multiple defaults"
  | severalLoopVariables => "Expected one variable binding"
  | valueInLoopHead => "Unexpected initializer in for in/of loop"
  | awaitLoop => "for await syntax is valid only for for-of statement"
  | asyncLoopVariable => "The left-hand side of a `for...of` statement may not be `async`"
  | annotatedLoopVariable =>
    "The left-hand side of a 'for...of' statement cannot use a type annotation"
  | patternInForIn => "The left-hand side of a 'for...in' statement cannot be a destructuring pattern"
  | resourcesDisabled =>
    "Using declaration is not enabled. Set jsc.parser.explicitResourceManagement to true"
  | resourceInForIn => "Using declaration is not allowed in for-in loop"
  | resourcePattern => "Using declaration only allows identifiers"
  | resourceWithoutValue => "Using declaration requires initializer"
  | nestedImportExport => "'import', and 'export' cannot be used outside of module code"
  | exportNeedsFrom w => "`" ++ w ++ "` cannot be used without `from` clause"
  | importReserved => "cannot import as reserved word"
  | importBindingString t =>
    "A string literal cannot be used as an imported binding.\n- Did you mean `import \x7b \"" ++ t ++
      "\" as foo \x7d`?"
  | exportBindingString => "A string literal cannot be used as an exported binding without `from`."
  | duplicateTypeImport =>
    "The 'type' modifier cannot be used on a named import when 'import type' is used on its import " ++
      "statement."
  | duplicateTypeExport =>
    "The 'type' modifier cannot be used on a named export when 'export type' is used on its export " ++
      "statement."
  | extendsTwice => "'extends' clause already seen."
  | extendsSeveral => "Classes can only extend a single class."
  | implementsTwice => "'implements' clause already seen."
  | invalidClassName => "Invalid class name"
  | constructorAccessor => "Class constructor can't be an accessor"
  | constructorField => "Classes may not have a non-static field named 'constructor'"
  | constructorGenerator => "Constructor can't be generator"
  | constructorAsync => "Constructor can't be async"
  | constructorTwice => "A class can only have one constructor"
  | constructorTypeParams => "Type parameters cannot appear on a constructor declaration"
  | constructorResultType => "Type annotation cannot appear on a constructor declaration."
  | constructorPrivate => "Classes can't have an element named '#constructor'."
  | constructorModifier w => "'" ++ w ++ "' modifier cannot appear on a constructor declaration"
  | abstractBody => "Abstract method cannot have an implementation."
  | abstractValue => "Abstract property cannot have an initializer."
  | abstractOutside => "Abstract methods can only appear within an abstract class."
  | abstractPlace =>
    "`abstract` modifier can only appear on a class, method, or property declaration."
  | readonlyMethod => "A method cannot be readonly"
  | readonlyAccessor => "A getter or a setter cannot be readonly"
  | overrideWithoutSuper =>
    "This member cannot have an 'override' modifier because its containing class does not extend another " ++
      "class."
  | privateModifier w => "'" ++ w ++ "' modifier cannot be used with a private identifier"
  | privateAccess => "An accessibility modifier cannot be used with a private identifier."
  | modifierOrder first second => "'" ++ first ++ "' modifier must precede '" ++ second ++ "' modifier."
  | modifierTwice w => "'" ++ w ++ "' modifier already seen."
  | modifierPlace w => "`" ++ w ++ "` modifier cannot appear on class elements of this kind"
  | modifierHere => "Modifiers cannot appear here"
  | modifierConflict first second =>
    "'" ++ first ++ "' modifier cannot be used with '" ++ second ++ "' modifier."
  | asyncModifier => "`async` modifier cannot be used here"
  | stringExpected => "String literal expected"
  | emptyTypeParams => "Type parameter list cannot be empty"
  | bodyInDeclaration => "An implementation cannot be declared in ambient contexts"
  | declareInAmbient => "`declare` modifier not allowed for code already in an ambient context"
  | interfaceName => "interface name is invalid"
  | interfaceExtends =>
    "An interface can only extend an identifier/qualified-name with optional type arguments."
  | enumComputedName => "Computed property names are not allowed in enums"
  | enumNumericName => "An enum member cannot have a numeric name"
  | indexParameters => "An index signature must have exactly one parameter"
  | requiredAfterOptional => "A required element cannot follow an optional element."
  | typeParamModifier w => "'" ++ w ++ "' modifier cannot appear on a type parameter"
  | typeParamModifierPlace w =>
    "'" ++ w ++ "' modifier can only appear on a type parameter of a class, interface or type alias"
  | constModifierPlace w =>
    "'" ++ w ++ "' modifier can only appear on a type parameter of a function, method or class"
  | privateInInterface => "private names are not allowed in interface"
  | emptyJsxAttr => "JSX attributes must only be assigned a non-empty expression"
  | invalidJsxValue => "JSX value should be either an expression or a quoted JSX text"
  | closingTag name => "Expected corresponding JSX closing tag for <" ++ name ++ ">"
  | closingFragment => "Expected corresponding JSX closing tag for <>"
  | tooDeep => "Nesting is too deep"

end Problem

/-- A problem at a span. -/
structure Fault where
  span : Span
  problem : Problem
  deriving DecidableEq, Inhabited

end FlagSweep
