import Uninit.Grammar.Rule

/-!
# The grammar of C

A rule for every kind of phrase. The grammar takes C before it is preprocessed: conditional
blocks may stand where items, fields or enumerators stand, if each branch holds whole ones.
It knows the common extensions of compilers, and takes statements outside of functions.

Lists are given by their items alone: a list is one item, or two lists one after the other.
-/
namespace Uninit.Grammar

/-- How strongly the operators bind. -/
inductive Level where
  | assignment | conditional | or | and | bitOr | bitXor | bitAnd | equality | relation | offset
  | shift | sum | product | cast | size | unary | call | member | subscript

def Level.strength : Level → Int
  | assignment => -2
  | conditional => -1
  | or => 1
  | and => 2
  | bitOr => 3
  | bitXor => 4
  | bitAnd => 5
  | equality => 6
  | relation => 7
  | offset => 8
  | shift => 9
  | sum => 10
  | product => 11
  | cast => 12
  | size => 13
  | unary => 14
  | call => 15
  | member => 16
  | subscript => 17

/-- The binary operators with their levels; all group to the left. -/
def binaryOperators : List (Terminal × Level) :=
  [(.plus, .sum), (.minus, .sum), (.star, .product), (.slash, .product), (.percent, .product),
   (.orOr, .or), (.andAnd, .and), (.bar, .bitOr), (.caret, .bitXor), (.ampersand, .bitAnd),
   (.equal, .equality), (.notEqual, .equality), (.greater, .relation),
   (.greaterEqual, .relation), (.lessEqual, .relation), (.less, .relation),
   (.shiftLeft, .shift), (.shiftRight, .shift)]

namespace Rule

/-! ### Names and small parts -/

def typeName : Rule := called (.other "type_identifier") (tok .identifier)

def fieldName : Rule := called .fieldIdentifier (tok .identifier)

def labelName : Rule := called (.other "statement_identifier") (tok .identifier)

/-- The words that give the size and sign of a type. -/
def sizeWord : Rule := oneOf [.kwSigned, .kwUnsigned, .kwLong, .kwShort]

def inParens (r : Rule) : Rule := sequence [tok .parenOpen, r, tok .parenClose]

/-- Phrases with commas between them, in parentheses; there may be none. -/
def arguments (r : Rule) (tail : Nonterminal) : Rule := inParens (opt (separated r tail))

/-- An expression, or several with commas between them. -/
def expressions : Rule := any [sub .expression, sub .commaExpression]

/-! ### Conditional blocks -/

/-- The branches that may follow in a conditional block. -/
structure Branches where
  last : Nonterminal
  conditional : Nonterminal
  defined : Nonterminal

/-- The next branch of a conditional block, if there is one. -/
def Branches.next (b : Branches) : Rule :=
  field .alternative (opt (any [sub b.last, sub b.conditional, sub b.defined]))

/-- A condition up to the end of its line. -/
def conditionLine : Rule := seq (field .condition (sub .condition)) (tok .lineFeed)

def ifBlock (strength : Int) (content : Nonterminal) (b : Branches) : Rule :=
  bindFirm strength (sequence [tok .dirIf, conditionLine, many content, b.next, tok .dirEndif])

def definedBlock (strength : Int) (content : Nonterminal) (b : Branches) : Rule :=
  bindFirm strength (sequence [oneOf [.dirIfdef, .dirIfndef], field .name (tok .identifier),
    many content, b.next, tok .dirEndif])

def elseBranch (strength : Int) (content : Nonterminal) : Rule :=
  bindFirm strength (seq (tok .dirElse) (many content))

def elifBranch (strength : Int) (content : Nonterminal) (b : Branches) : Rule :=
  bindFirm strength (sequence [tok .dirElif, conditionLine, many content, b.next])

def definedBranch (strength : Int) (content : Nonterminal) (b : Branches) : Rule :=
  bindFirm strength (sequence [oneOf [.dirElifdef, .dirElifndef], field .name (tok .identifier),
    many content, b.next])

/-- The branches of a block of items. -/
def itemBranches : Branches := ⟨.elseBranch, .elifBranch, .definedBranch⟩

/-- The branches of a block of fields. -/
def fieldBranches : Branches := ⟨.elseBranchOfFields, .elifBranchOfFields, .definedBranchOfFields⟩

/-- The branches of a block of enumerators with commas behind them. -/
def enumeratorBranches : Branches :=
  ⟨.elseBranchOfEnumerators, .elifBranchOfEnumerators, .definedBranchOfEnumerators⟩

/-- The branches of a block with the last enumerator of a list. -/
def endBranches : Branches := ⟨.elseBranchAtEnd, .elifBranchAtEnd, .definedBranchAtEnd⟩

/-- What may stand among items, where `phrase` is what stands for statements there. -/
def item (phrase : Nonterminal) : Rule :=
  any (([.functionDefinition, .oldFunctionDefinition, .linkageSpecification, .declaration,
    phrase, .attributedStatement, .typeDefinition, .emptyDeclaration, .ifBlock,
    .definedBlock, .includeDirective, .macroDefinition, .functionMacro, .otherDirective] :
    List Nonterminal).map sub)

/-! ### Declarators -/

/-- An inner declarator in parentheses. -/
def innerInParentheses (d : Nonterminal) : Rule :=
  sequence [tok .parenOpen, opt (sub .callModifier), sub d, tok .parenClose]

/-- A declarator in parentheses; other readings are preferred. -/
def parenthesizedDeclarator (d : Nonterminal) : Rule := weigh (-10) (innerInParentheses d)

def attributedDeclarator (d : Nonterminal) : Rule :=
  bindRight 0 (seq (sub d) (sub .attributeDeclarations))

/-- What stands between the `*` of a pointer and its declarator. -/
def pointerQualifiers : Rule := seq (many .pointerModifiers) (many .typeQualifiers)

def pointerDeclarator (d : Nonterminal) : Rule :=
  weigh 1 (bindRight 0 (sequence [opt (sub .basedModifier), tok .star, pointerQualifiers,
    field .declarator (sub d)]))

def functionDeclarator (d : Rule) : Rule :=
  seq (field .declarator d) (sub .parameterList)

def arrayDeclarator (d : Rule) : Rule :=
  bindFirm 1 (sequence [field .declarator d, tok .bracketOpen, many .arrayQualifiers,
    opt (any [sub .expression, tok .star]), tok .bracketClose])

/-! ### Types, statements and expressions -/

def typeInParentheses : Rule := inParens (sub .typeDescriptor)

/-- The name or the body of a tag, or both. -/
def tag (body : Nonterminal) : Rule :=
  alt (seq (field .name typeName) (field .body (opt (sub body)))) (field .body (sub body))

/-- The statements that are no `case`. -/
def plainStatement : Rule :=
  any (([.attributedStatement, .labeledStatement, .compoundStatement, .expressionStatement,
    .ifStatement, .switchStatement, .doStatement, .whileStatement, .forStatement,
    .returnStatement, .breakStatement, .continueStatement, .gotoStatement, .tryStatement,
    .leaveStatement] : List Nonterminal).map sub)

/-- The expressions that are no binary operation. -/
def plainExpression : Rule :=
  any [sub .conditionalExpression, sub .assignmentExpression, sub .unaryExpression,
    sub .updateExpression, sub .castExpression, sub .pointerExpression, sub .sizeofExpression,
    sub .alignofExpression, sub .offsetofExpression, sub .genericExpression,
    sub .subscriptExpression, sub .callExpression, sub .fieldExpression, sub .compoundLiteral,
    tok .identifier, tok .number, sub .string, tok .kwTrue, tok .kwFalse, sub .null,
    sub .charLiteral, sub .parenthesizedExpression, sub .asmExpression, sub .extensionExpression]

/-- What may be assigned to. -/
def assignable : Rule :=
  any [tok .identifier, sub .callExpression, sub .fieldExpression, sub .pointerExpression,
    sub .subscriptExpression, sub .parenthesizedExpression]

/-- The binary operations on some operands. -/
def binary (operand : Nonterminal) : Rule :=
  any (binaryOperators.map fun (op, level) =>
    bindLeft level.strength (sequence [sub operand, tok op, sub operand]))

def asmOperand : Rule :=
  sequence [opt (sequence [tok .bracketOpen, tok .identifier, tok .bracketClose]),
    sub .stringLiteral, tok .parenOpen, field .value (sub .expression), tok .parenClose]

end Rule

namespace Nonterminal

open Rule

/-- The items of a list, for a phrase that is a list. -/
def listItem? : Nonterminal → Option Rule
  | topItems => some (sub .topItem)
  | macroParameterTail => some (seq (tok .comma) (any [tok .identifier, tok .ellipsis]))
  | blockItems => some (sub .blockItem)
  | fieldItems => some (sub .fieldItem)
  | commaEnumerators => some (seq (sub .enumerator) (tok .comma))
  | bareEnumerators => some (sub .enumerator)
  | macroArgumentTail => some (seq (tok .comma) (sub .condition))
  | declarations => some (sub .declaration)
  | declaratorTail =>
    some (seq (tok .comma) (field .declarator (any
      [sequence [opt (sub .callModifier), sub .declaredDeclarator, opt (sub .asmExpression)],
        sub .initDeclarator])))
  | attributeSpecifiers => some (sub .attributeSpecifier)
  | typeQualifiers => some (sub .typeQualifier)
  | typedefDeclaratorTail => some (seq (tok .comma) (field .declarator (sub .typeDeclarator)))
  | modifiers => some (sub .modifier)
  | attributeTail => some (seq (tok .comma) (sub .attributeEntry))
  | attributeDeclarations => some (sub .attributeDeclaration)
  | pointerModifiers => some (sub .pointerModifier)
  | functionSuffixes =>
    some (any [sub .attributeSpecifier, tok .identifier, sub .macroCall])
  | arrayQualifiers => some (any [sub .typeQualifier, tok .kwStatic])
  | sizeWords => some sizeWord
  | enumeratorItems =>
    some (any [seq (sub .enumerator) (tok .comma), sub .ifBlockOfEnumerators,
      sub .definedBlockOfEnumerators, seq (sub .otherDirective) (tok .comma)])
  | fieldDeclaratorTail =>
    some (sequence [tok .comma, field .declarator (sub .fieldDeclarator),
      opt (sub .bitfieldClause)])
  | parameterTail =>
    some (seq (tok .comma) (any [sub .parameterDeclaration, sub .variadicParameter]))
  | oldParameterTail => some (seq (tok .comma) (any [tok .identifier, sub .variadicParameter]))
  | caseItems => some (any [plainStatement, sub .declaration, sub .typeDefinition])
  | genericTail => some (sequence [tok .comma, sub .typeDescriptor, tok .colon, sub .expression])
  | asmQualifiers => some (sub .asmQualifier)
  | asmOutputTail => some (seq (tok .comma) (sub .asmOutput))
  | asmInputTail => some (seq (tok .comma) (sub .asmInput))
  | asmClobberTail => some (seq (tok .comma) (sub .string))
  | asmLabelTail => some (seq (tok .comma) (field .label (tok .identifier)))
  | argumentTail => some (seq (tok .comma) (any [sub .expression, sub .compoundStatement]))
  | initializerTail =>
    some (seq (tok .comma) (any [sub .initializerPair, sub .expression, sub .initializerList]))
  | designators =>
    some (any [sub .subscriptDesignator, sub .fieldDesignator, sub .subscriptRangeDesignator])
  | characters => some (any [tok .escape, tok .character])
  | stringParts => some (any [sub .stringLiteral, tok .identifier])
  | stringPieces => some (any [tok .stringContent, tok .escape])
  | _ => none

/-- Whether a phrase is a list. -/
def isList (n : Nonterminal) : Bool :=
  n.listItem?.isSome

/-- The rule of a phrase that is no list. -/
def plainRule : Nonterminal → Rule
  | file => sub .translationUnit
  | translationUnit => many .topItems
  | topItem => item .topStatement
  | blockItem => item .statement
  -- Directives
  | includeDirective =>
    sequence [tok .dirInclude, any [sub .stringLiteral, tok .systemHeader, tok .identifier,
      sub .macroCall], tok .newline]
  | macroDefinition =>
    sequence [tok .dirDefine, field .name (tok .identifier),
      field .value (opt (tok .directiveText)), tok .newline]
  | functionMacro =>
    sequence [tok .dirDefine, field .name (tok .identifier), sub .macroParameters,
      field .value (opt (tok .directiveText)), tok .newline]
  | macroParameters =>
    sequence [tok .parenAtOnce,
      opt (separated (any [tok .identifier, tok .ellipsis]) .macroParameterTail),
      tok .parenClose]
  | otherDirective => sequence [tok .directive, opt (tok .directiveText), tok .newline]
  | ifBlock => Rule.ifBlock 0 .blockItems itemBranches
  | definedBlock => Rule.definedBlock 0 .blockItems itemBranches
  | elseBranch => Rule.elseBranch 0 .blockItems
  | elifBranch => Rule.elifBranch 0 .blockItems itemBranches
  | definedBranch => Rule.definedBranch 0 .blockItems itemBranches
  | ifBlockOfFields => Rule.ifBlock 0 .fieldItems fieldBranches
  | definedBlockOfFields => Rule.definedBlock 0 .fieldItems fieldBranches
  | elseBranchOfFields => Rule.elseBranch 0 .fieldItems
  | elifBranchOfFields => Rule.elifBranch 0 .fieldItems fieldBranches
  | definedBranchOfFields => Rule.definedBranch 0 .fieldItems fieldBranches
  | ifBlockOfEnumerators => Rule.ifBlock 0 .commaEnumerators enumeratorBranches
  | definedBlockOfEnumerators => Rule.definedBlock 0 .commaEnumerators enumeratorBranches
  | elseBranchOfEnumerators => Rule.elseBranch 0 .commaEnumerators
  | elifBranchOfEnumerators => Rule.elifBranch 0 .commaEnumerators enumeratorBranches
  | definedBranchOfEnumerators => Rule.definedBranch 0 .commaEnumerators enumeratorBranches
  | ifBlockAtEnd => Rule.ifBlock (-1) .bareEnumerators endBranches
  | definedBlockAtEnd => Rule.definedBlock (-1) .bareEnumerators endBranches
  | elseBranchAtEnd => Rule.elseBranch (-1) .bareEnumerators
  | elifBranchAtEnd => Rule.elifBranch (-1) .bareEnumerators endBranches
  | definedBranchAtEnd => Rule.definedBranch (-1) .bareEnumerators endBranches
  | condition =>
    any [tok .identifier, sub .macroCall, tok .number, sub .charLiteral, sub .definedTest,
      sub .unaryCondition, sub .binaryCondition, sub .conditionInParentheses]
  | conditionInParentheses => inParens (sub .condition)
  | definedTest =>
    bindFirm Level.unary.strength (any [seq (tok .kwDefined) (inParens (tok .identifier)),
      seq (tok .kwDefined) (tok .identifier)])
  | unaryCondition =>
    bindLeft Level.unary.strength (seq (oneOf [.not, .tilde, .minus, .plus]) (sub .condition))
  | macroCall => bindFirm Level.call.strength (seq (tok .identifier) (sub .macroArguments))
  | macroArguments => arguments (sub .condition) .macroArgumentTail
  | binaryCondition => binary .condition
  -- Definitions and declarations
  | functionDefinition =>
    sequence [opt (sub .callModifier), sub .specifiers, opt (sub .callModifier),
      field .declarator (sub .declarator), field .body (sub .compoundStatement)]
  | oldFunctionDefinition =>
    sequence [opt (sub .callModifier), sub .specifiers, field .declarator (sub .functionOld),
      many .declarations, field .body (sub .compoundStatement)]
  | declaration =>
    sequence [sub .specifiers,
      separated (field .declarator (any
        [sequence [opt (sub .callModifier), sub .declaredDeclarator, opt (sub .asmExpression)],
          sub .initDeclarator])) .declaratorTail,
      tok .semicolon]
  | typeDefinition =>
    sequence [opt (tok .kwExtension), tok .kwTypedef, sub .typedefType, sub .typedefDeclarators,
      many .attributeSpecifiers, tok .semicolon]
  | typedefType => sequence [many .typeQualifiers, sub .typeSpecifier, many .typeQualifiers]
  | typedefDeclarators =>
    separated (field .declarator (sub .typeDeclarator)) .typedefDeclaratorTail
  | modifier =>
    any [sub .storageClass, sub .typeQualifier, sub .attributeSpecifier,
      sub .attributeDeclaration, sub .declspecModifier]
  | specifiers => bindRight 0 (sequence [many .modifiers, sub .typeSpecifier, many .modifiers])
  | linkageSpecification =>
    sequence [tok .kwExtern, field .value (sub .stringLiteral),
      field .body (any [sub .functionDefinition, sub .declaration, sub .declarationList])]
  | attributeSpecifier =>
    seq (oneOf [.kwAttributeGnu, .kwAttribute]) (inParens (sub .argumentList))
  | attributeEntry =>
    sequence [opt (seq (tok .identifier) (tok .colonColon)), field .name (tok .identifier),
      opt (sub .argumentList)]
  | attributeDeclaration =>
    sequence [tok .attributeOpen, separated (sub .attributeEntry) .attributeTail,
      tok .attributeClose]
  | declspecModifier => seq (tok .kwDeclspec) (inParens (tok .identifier))
  | basedModifier => seq (tok .kwBased) (sub .argumentList)
  | callModifier =>
    oneOf [.kwCdecl, .kwClrcall, .kwStdcall, .kwFastcall, .kwThiscall, .kwVectorcall]
  | unalignedModifier => oneOf [.kwUnalignedShort, .kwUnaligned]
  | pointerModifier =>
    any [sub .unalignedModifier, tok .kwRestrictPointer, tok .kwUptr, tok .kwSptr]
  | declarationList => sequence [tok .braceOpen, many .blockItems, tok .braceClose]
  -- Declarators
  | declarator =>
    any [sub .attributed, sub .pointer, sub .function, sub .array, sub .parenthesized,
      tok .identifier]
  | declaredDeclarator =>
    any [sub .attributed, sub .pointer, sub .functionDeclared, sub .array, sub .parenthesized,
      tok .identifier]
  | fieldDeclarator =>
    any [sub .attributedField, sub .pointerField, sub .functionField, sub .arrayField,
      sub .parenthesizedField, fieldName]
  | typeDeclarator =>
    any [sub .attributedType, sub .pointerType, sub .functionType, sub .arrayType,
      sub .parenthesizedType, typeName, called (.other "primitive_type") sizeWord,
      tok .primitiveType]
  | abstractDeclarator =>
    any [sub .pointerAbstract, sub .functionAbstract, sub .arrayAbstract,
      sub .parenthesizedAbstract]
  | parenthesized => parenthesizedDeclarator .declarator
  | parenthesizedField => parenthesizedDeclarator .fieldDeclarator
  | parenthesizedType => parenthesizedDeclarator .typeDeclarator
  | parenthesizedAbstract => bindFirm 1 (innerInParentheses .abstractDeclarator)
  | attributed => attributedDeclarator .declarator
  | attributedField => attributedDeclarator .fieldDeclarator
  | attributedType => attributedDeclarator .typeDeclarator
  | pointer => pointerDeclarator .declarator
  | pointerField => pointerDeclarator .fieldDeclarator
  | pointerType => pointerDeclarator .typeDeclarator
  | pointerAbstract =>
    weigh 1 (bindRight 0 (sequence [tok .star, pointerQualifiers,
      field .declarator (opt (sub .abstractDeclarator))]))
  | function =>
    bindRight 1 (sequence [functionDeclarator (sub .declarator), opt (sub .asmExpression),
      many .functionSuffixes])
  | functionDeclared =>
    bindRight 1 (sequence [functionDeclarator (sub .declarator), opt (sub .asmExpression),
      many .attributeSpecifiers])
  | functionField => bindFirm 1 (functionDeclarator (sub .fieldDeclarator))
  | functionType => bindFirm 1 (functionDeclarator (sub .typeDeclarator))
  | functionAbstract => bindFirm 1 (functionDeclarator (opt (sub .abstractDeclarator)))
  | functionOld => seq (field .declarator (sub .declarator)) (sub .oldParameterList)
  | array => arrayDeclarator (sub .declarator)
  | arrayField => arrayDeclarator (sub .fieldDeclarator)
  | arrayType => arrayDeclarator (sub .typeDeclarator)
  | arrayAbstract => arrayDeclarator (opt (sub .abstractDeclarator))
  | initDeclarator =>
    sequence [field .declarator (sub .declarator), tok .assign,
      field .value (any [sub .initializerList, sub .expression])]
  -- Types
  | storageClass =>
    oneOf [.kwExtern, .kwStatic, .kwAuto, .kwRegister, .kwInline, .kwInlineShort, .kwInlineGnu,
      .kwForceinline, .kwThreadLocal, .kwThread]
  | typeQualifier =>
    alt (oneOf [.kwConst, .kwConstexpr, .kwVolatile, .kwRestrict, .kwRestrictGnu, .kwExtension,
      .kwAtomic, .kwNoreturnOld, .kwNoreturn, .kwNonnull]) (sub .alignasQualifier)
  | alignasQualifier =>
    seq (oneOf [.kwAlignas, .kwAlignasOld])
      (inParens (any [sub .expression, sub .typeDescriptor]))
  | typeSpecifier =>
    any [sub .structSpecifier, sub .unionSpecifier, sub .enumSpecifier, sub .macroTypeSpecifier,
      sub .sizedType, tok .primitiveType, typeName]
  | sizedType =>
    let base := any [weigh (-1) typeName, tok .primitiveType]
    alt (seq base (sub .sizeWords))
      (sequence [sub .sizeWords, many .typeQualifiers, opt base, many .sizeWords])
  | enumSpecifier =>
    sequence [tok .kwEnum,
      alt (sequence [field .name typeName, opt (seq (tok .colon) (tok .primitiveType)),
          field .body (opt (sub .enumeratorList))])
        (field .body (sub .enumeratorList)),
      opt (sub .attributeSpecifier)]
  | enumeratorList =>
    sequence [tok .braceOpen, many .enumeratorItems,
      opt (any [sub .enumerator, sub .ifBlockAtEnd, sub .definedBlockAtEnd, sub .otherDirective]),
      tok .braceClose]
  | structSpecifier =>
    bindRight 0 (sequence [tok .kwStruct, opt (sub .attributeSpecifier),
      opt (sub .declspecModifier), tag .fieldList, opt (sub .attributeSpecifier)])
  | unionSpecifier =>
    bindRight 0 (sequence [tok .kwUnion, opt (sub .declspecModifier), tag .fieldList,
      opt (sub .attributeSpecifier)])
  | fieldList => sequence [tok .braceOpen, many .fieldItems, tok .braceClose]
  | fieldItem =>
    any [sub .fieldDeclaration, sub .macroDefinition, sub .functionMacro, sub .otherDirective,
      sub .ifBlockOfFields, sub .definedBlockOfFields]
  | fieldDeclaration =>
    sequence [sub .specifiers, opt (sub .fieldDeclarators), opt (sub .attributeSpecifier),
      tok .semicolon]
  | fieldDeclarators =>
    separated (seq (field .declarator (sub .fieldDeclarator)) (opt (sub .bitfieldClause)))
      .fieldDeclaratorTail
  | bitfieldClause => seq (tok .colon) (sub .expression)
  | enumerator =>
    seq (field .name (tok .identifier))
      (opt (seq (tok .assign) (field .value (sub .expression))))
  | variadicParameter => tok .ellipsis
  | parameterList =>
    inParens (alt
      (opt (separated (any [sub .parameterDeclaration, sub .variadicParameter]) .parameterTail))
      (sub .compoundStatement))
  | oldParameterList =>
    arguments (any [tok .identifier, sub .variadicParameter]) .oldParameterTail
  | parameterDeclaration =>
    sequence [sub .specifiers,
      opt (field .declarator (any [sub .declarator, sub .abstractDeclarator])),
      many .attributeSpecifiers]
  -- Statements
  | compoundStatement => sequence [tok .braceOpen, many .blockItems, tok .braceClose]
  | attributedStatement => seq (sub .attributeDeclarations) (sub .statement)
  | statement => alt (sub .caseStatement) plainStatement
  | topStatement =>
    any (([.caseStatement, .attributedStatement, .labeledStatement, .compoundStatement,
      .topExpressionStatement, .ifStatement, .switchStatement, .doStatement, .whileStatement,
      .forStatement, .returnStatement, .breakStatement, .continueStatement, .gotoStatement] :
      List Nonterminal).map sub)
  | labeledStatement =>
    sequence [field .label labelName, tok .colon, any [sub .declaration, sub .statement]]
  | topExpressionStatement => seq (opt plainExpression) (tok .semicolon)
  | expressionStatement => seq (opt expressions) (tok .semicolon)
  | ifStatement =>
    bindRight 0 (sequence [tok .kwIf, field .condition (sub .parenthesizedExpression),
      field .consequence (sub .statement), field .alternative (opt (sub .elseClause))])
  | elseClause => seq (tok .kwElse) (sub .statement)
  | switchStatement =>
    sequence [tok .kwSwitch, field .condition (sub .parenthesizedExpression),
      field .body (sub .compoundStatement)]
  | caseStatement =>
    let label := alt (seq (tok .kwCase) (field .value (sub .expression))) (tok .kwDefault)
    bindRight 0 (sequence [label, tok .colon, many .caseItems])
  | whileStatement =>
    sequence [tok .kwWhile, field .condition (sub .parenthesizedExpression),
      field .body (sub .statement)]
  | doStatement =>
    sequence [tok .kwDo, field .body (sub .statement), tok .kwWhile,
      field .condition (sub .parenthesizedExpression), tok .semicolon]
  | forStatement =>
    sequence [tok .kwFor, inParens (sub .forHead), field .body (sub .statement)]
  | forHead =>
    sequence [alt (field .initializer (sub .declaration))
        (seq (field .initializer (opt expressions)) (tok .semicolon)),
      field .condition (opt expressions), tok .semicolon, opt expressions]
  | returnStatement => sequence [tok .kwReturn, opt expressions, tok .semicolon]
  | breakStatement => seq (tok .kwBreak) (tok .semicolon)
  | continueStatement => seq (tok .kwContinue) (tok .semicolon)
  | gotoStatement => sequence [tok .kwGoto, field .label labelName, tok .semicolon]
  | tryStatement =>
    sequence [tok .kwTry, field .body (sub .compoundStatement),
      any [sub .exceptClause, sub .finallyClause]]
  | exceptClause =>
    sequence [tok .kwExcept, sub .parenthesizedExpression, field .body (sub .compoundStatement)]
  | finallyClause => seq (tok .kwFinally) (field .body (sub .compoundStatement))
  | leaveStatement => seq (tok .kwLeave) (tok .semicolon)
  -- Expressions
  | expression => alt plainExpression (sub .binaryExpression)
  | string => bindLeft 0 (any [sub .stringLiteral, sub .concatenatedString])
  | commaExpression => sequence [sub .expression, tok .comma, expressions]
  | conditionalExpression =>
    bindRight Level.conditional.strength (sequence [field .condition (sub .expression),
      tok .question, opt (field .consequence expressions), tok .colon,
      field .alternative (sub .expression)])
  | assignmentExpression =>
    bindRight Level.assignment.strength (sequence [assignable,
      oneOf [.assign, .timesAssign, .divideAssign, .remainderAssign, .addAssign, .subtractAssign,
        .shiftLeftAssign, .shiftRightAssign, .andAssign, .xorAssign, .orAssign],
      sub .expression])
  | pointerExpression =>
    bindLeft Level.cast.strength (seq (oneOf [.star, .ampersand]) (sub .expression))
  | unaryExpression =>
    bindLeft Level.unary.strength (seq (oneOf [.not, .tilde, .minus, .plus]) (sub .expression))
  | binaryExpression => binary .expression
  | updateExpression =>
    let step := oneOf [.decrement, .increment]
    bindRight Level.unary.strength (alt (seq step (sub .expression)) (seq (sub .expression) step))
  | castExpression =>
    bindFirm Level.cast.strength (seq typeInParentheses (field .value (sub .expression)))
  | typeDescriptor =>
    sequence [many .typeQualifiers, sub .typeSpecifier, many .typeQualifiers,
      field .declarator (opt (sub .abstractDeclarator))]
  | sizeofExpression =>
    bindFirm Level.size.strength (seq (tok .kwSizeof)
      (alt (field .value (sub .expression)) typeInParentheses))
  | alignofExpression =>
    bindFirm Level.size.strength (seq
      (oneOf [.kwAlignofGnu, .kwAlignofGnuShort, .kwAlignofLower, .kwAlignof, .kwAlignofOld])
      typeInParentheses)
  | offsetofExpression =>
    bindFirm Level.offset.strength (seq (tok .kwOffsetof)
      (inParens (sequence [sub .typeDescriptor, tok .comma, fieldName])))
  | genericExpression =>
    bindFirm Level.call.strength (sequence [tok .kwGeneric, tok .parenOpen, sub .expression,
      tok .comma,
      separated (sequence [sub .typeDescriptor, tok .colon, sub .expression]) .genericTail,
      tok .parenClose])
  | subscriptExpression =>
    bindFirm Level.subscript.strength
      (sequence [sub .expression, tok .bracketOpen, sub .expression, tok .bracketClose])
  | callExpression =>
    bindFirm Level.call.strength (seq (sub .expression) (sub .argumentList))
  | asmExpression =>
    bindFirm Level.call.strength (sequence [oneOf [.kwAsm, .kwAsmGnu, .kwAsmShort],
      many .asmQualifiers, tok .parenOpen, sub .string,
      opt (seq (sub .asmOutputs) (opt (seq (sub .asmInputs) (opt (seq (sub .asmClobbers)
        (opt (sub .asmLabels))))))),
      tok .parenClose])
  | asmQualifier => oneOf [.kwVolatile, .kwVolatileGnu, .kwInline, .kwGoto]
  | asmOutputs => seq (tok .colon) (opt (separated (sub .asmOutput) .asmOutputTail))
  | asmOutput => asmOperand
  | asmInputs => seq (tok .colon) (opt (separated (sub .asmInput) .asmInputTail))
  | asmInput => asmOperand
  | asmClobbers => seq (tok .colon) (opt (separated (sub .string) .asmClobberTail))
  | asmLabels =>
    seq (tok .colon) (opt (separated (field .label (tok .identifier)) .asmLabelTail))
  | extensionExpression => seq (tok .kwExtension) (sub .expression)
  | argumentList => arguments (any [sub .expression, sub .compoundStatement]) .argumentTail
  | fieldExpression =>
    bindFirm Level.member.strength
      (sequence [sub .expression, oneOf [.dot, .arrow], fieldName])
  | compoundLiteral => seq typeInParentheses (field .value (sub .initializerList))
  | parenthesizedExpression =>
    inParens (any [sub .expression, sub .commaExpression, sub .compoundStatement])
  | initializerList =>
    sequence [tok .braceOpen,
      opt (separated (any [sub .initializerPair, sub .expression, sub .initializerList])
        .initializerTail),
      opt (tok .comma), tok .braceClose]
  | initializerPair =>
    let value := field .value (any [sub .expression, sub .initializerList])
    alt (sequence [sub .designators, tok .assign, value]) (sequence [fieldName, tok .colon, value])
  | subscriptDesignator => sequence [tok .bracketOpen, sub .expression, tok .bracketClose]
  | subscriptRangeDesignator =>
    sequence [tok .bracketOpen, sub .expression, tok .ellipsis, sub .expression, tok .bracketClose]
  | fieldDesignator => seq (tok .dot) fieldName
  | charLiteral =>
    sequence [oneOf [.wideQuote, .utf16Quote, .utf32Quote, .utf8Quote, .quote], sub .characters,
      tok .quote]
  | concatenatedString =>
    bindRight 0 (seq (any [seq (tok .identifier) (sub .stringLiteral),
      seq (sub .stringLiteral) (sub .stringLiteral),
      seq (sub .stringLiteral) (tok .identifier)]) (many .stringParts))
  | stringLiteral =>
    sequence [oneOf [.wideDoubleQuote, .utf16DoubleQuote, .utf32DoubleQuote, .utf8DoubleQuote,
      .doubleQuote], many .stringPieces, tok .doubleQuote]
  | null => oneOf [.kwNull, .kwNullptr]
  | emptyDeclaration => seq (sub .typeSpecifier) (tok .semicolon)
  | macroTypeSpecifier =>
    weigh (-1) (sequence [field .name (tok .identifier), typeInParentheses])
  | _ => nothing

/-- The rule of a phrase. -/
def rule (n : Nonterminal) : Rule :=
  match n.listItem? with
  | some r => alt (seq (sub n) (sub n)) r
  | none => n.plainRule

end Nonterminal

end Uninit.Grammar
