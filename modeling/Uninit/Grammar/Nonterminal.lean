import Uninit.Tree

/-!
# Phrases of C

The kinds of phrase of the grammar. Many stand for one and the same construct at several
places, where its parts differ: a declarator of a field or of a type name, or a conditional
block among items, fields or enumerators. Names with a plural or with `Tail` stand for lists.
The order of the kinds settles ties between two readings of one text.
-/
namespace Uninit.Grammar

/-- The kinds of phrase. -/
inductive Nonterminal where
  | translationUnit | topItem | blockItem | includeDirective | macroDefinition | functionMacro
  | macroParameters | otherDirective | ifBlock | definedBlock | elseBranch | elifBranch
  | definedBranch | ifBlockOfFields | definedBlockOfFields | elseBranchOfFields
  | elifBranchOfFields | definedBranchOfFields | ifBlockOfEnumerators | definedBlockOfEnumerators
  | elseBranchOfEnumerators | elifBranchOfEnumerators | definedBranchOfEnumerators | ifBlockAtEnd
  | definedBlockAtEnd | elseBranchAtEnd | elifBranchAtEnd | definedBranchAtEnd | condition
  | conditionInParentheses | definedTest | unaryCondition | macroCall | macroArguments
  | binaryCondition | functionDefinition | oldFunctionDefinition | declaration | typeDefinition
  | typedefType | typedefDeclarators | modifier | specifiers | linkageSpecification
  | attributeSpecifier | attributeEntry | attributeDeclaration | declspecModifier | basedModifier
  | callModifier | unalignedModifier | pointerModifier | declarationList | declarator
  | declaredDeclarator | fieldDeclarator | typeDeclarator | abstractDeclarator | parenthesized
  | parenthesizedField | parenthesizedType | parenthesizedAbstract | attributed | attributedField
  | attributedType | pointer | pointerField | pointerType | pointerAbstract | function
  | functionDeclared | functionField | functionType | functionAbstract | functionOld | array
  | arrayField | arrayType | arrayAbstract | initDeclarator | compoundStatement | storageClass
  | typeQualifier | alignasQualifier | typeSpecifier | sizedType | enumSpecifier | enumeratorList
  | structSpecifier | unionSpecifier | fieldList | fieldItem | fieldDeclaration | fieldDeclarators
  | bitfieldClause | enumerator | variadicParameter | parameterList | oldParameterList
  | parameterDeclaration | attributedStatement | statement | topStatement | labeledStatement
  | topExpressionStatement | expressionStatement | ifStatement | elseClause | switchStatement
  | caseStatement | whileStatement | doStatement | forStatement | forHead | returnStatement
  | breakStatement | continueStatement | gotoStatement | tryStatement | exceptClause
  | finallyClause | leaveStatement | expression | string | commaExpression | conditionalExpression
  | assignmentExpression | pointerExpression | unaryExpression | binaryExpression
  | updateExpression | castExpression | typeDescriptor | sizeofExpression | alignofExpression
  | offsetofExpression | genericExpression | subscriptExpression | callExpression | asmExpression
  | asmQualifier | asmOutputs | asmOutput | asmInputs | asmInput | asmClobbers | asmLabels
  | extensionExpression | argumentList | fieldExpression | compoundLiteral
  | parenthesizedExpression | initializerList | initializerPair | subscriptDesignator
  | subscriptRangeDesignator | fieldDesignator | charLiteral | concatenatedString | stringLiteral
  | null | emptyDeclaration | macroTypeSpecifier | topItems | macroParameterTail | blockItems
  | fieldItems | commaEnumerators | bareEnumerators | macroArgumentTail | declarations
  | declaratorTail | attributeSpecifiers | typeQualifiers | typedefDeclaratorTail | modifiers
  | attributeTail | attributeDeclarations | pointerModifiers | functionSuffixes | arrayQualifiers
  | sizeWords | enumeratorItems | fieldDeclaratorTail | parameterTail | oldParameterTail
  | caseItems | genericTail | asmQualifiers | asmOutputTail | asmInputTail | asmClobberTail
  | asmLabelTail | argumentTail | initializerTail | designators | characters | stringParts
  | stringPieces | file
deriving Repr, DecidableEq, Inhabited

namespace Nonterminal

/-- The place of a kind of phrase among all of them. -/
def rank (n : Nonterminal) : Nat :=
  n.ctorIdx

def count : Nat := file.rank + 1

def all : List Nonterminal :=
  (List.range count).map ofNat

/-- What a phrase is in a tree, or none if its parts take its place. -/
def kind? : Nonterminal → Option Tree.Kind
  | .translationUnit => some (.other "translation_unit")
  | .includeDirective => some (.other "preproc_include")
  | .macroDefinition => some (.other "preproc_def")
  | .functionMacro => some (.other "preproc_function_def")
  | .macroParameters => some (.other "preproc_params")
  | .otherDirective => some (.other "preproc_call")
  | .ifBlock | .ifBlockOfFields | .ifBlockOfEnumerators | .ifBlockAtEnd => some .conditionalBlock
  | .definedBlock | .definedBlockOfFields | .definedBlockOfEnumerators | .definedBlockAtEnd =>
      some .definedBlock
  | .elseBranch | .elseBranchOfFields | .elseBranchOfEnumerators | .elseBranchAtEnd =>
      some .lastBranch
  | .elifBranch | .elifBranchOfFields | .elifBranchOfEnumerators | .elifBranchAtEnd =>
      some .conditionalBranch
  | .definedBranch | .definedBranchOfFields | .definedBranchOfEnumerators | .definedBranchAtEnd =>
      some .definedBranch
  | .conditionInParentheses | .parenthesizedExpression => some (.other "parenthesized_expression")
  | .definedTest => some (.other "preproc_defined")
  | .unaryCondition | .unaryExpression => some (.other "unary_expression")
  | .macroCall | .callExpression => some (.other "call_expression")
  | .macroArguments | .argumentList => some (.other "argument_list")
  | .binaryCondition | .binaryExpression => some (.other "binary_expression")
  | .functionDefinition | .oldFunctionDefinition => some .functionDefinition
  | .declaration => some .declaration
  | .typeDefinition => some (.other "type_definition")
  | .linkageSpecification => some (.other "linkage_specification")
  | .attributeSpecifier => some (.other "attribute_specifier")
  | .attributeEntry => some (.other "attribute")
  | .attributeDeclaration => some .attributeDeclaration
  | .declspecModifier => some (.other "ms_declspec_modifier")
  | .basedModifier => some (.other "ms_based_modifier")
  | .callModifier => some (.other "ms_call_modifier")
  | .unalignedModifier => some (.other "ms_unaligned_ptr_modifier")
  | .pointerModifier => some (.other "ms_pointer_modifier")
  | .declarationList => some (.other "declaration_list")
  | .parenthesized | .parenthesizedField | .parenthesizedType => some .parenthesizedDeclarator
  | .parenthesizedAbstract => some (.other "abstract_parenthesized_declarator")
  | .attributed | .attributedField | .attributedType => some .attributedDeclarator
  | .pointer | .pointerField | .pointerType => some .pointerDeclarator
  | .pointerAbstract => some .abstractPointerDeclarator
  | .function | .functionDeclared | .functionField | .functionType | .functionOld =>
      some (.other "function_declarator")
  | .functionAbstract => some (.other "abstract_function_declarator")
  | .array | .arrayField | .arrayType => some (.other "array_declarator")
  | .arrayAbstract => some (.other "abstract_array_declarator")
  | .initDeclarator => some .initDeclarator
  | .compoundStatement => some .compoundStatement
  | .storageClass => some (.other "storage_class_specifier")
  | .typeQualifier => some (.other "type_qualifier")
  | .alignasQualifier => some (.other "alignas_qualifier")
  | .sizedType => some (.other "sized_type_specifier")
  | .enumSpecifier => some .enumSpecifier
  | .enumeratorList => some (.other "enumerator_list")
  | .structSpecifier => some .structSpecifier
  | .unionSpecifier => some .unionSpecifier
  | .fieldList => some (.other "field_declaration_list")
  | .fieldDeclaration => some (.other "field_declaration")
  | .bitfieldClause => some (.other "bitfield_clause")
  | .enumerator => some (.other "enumerator")
  | .variadicParameter => some (.other "variadic_parameter")
  | .parameterList | .oldParameterList => some (.other "parameter_list")
  | .parameterDeclaration => some (.other "parameter_declaration")
  | .attributedStatement => some .attributedStatement
  | .labeledStatement => some .labeledStatement
  | .topExpressionStatement | .expressionStatement => some (.other "expression_statement")
  | .ifStatement => some .ifStatement
  | .elseClause => some .elseClause
  | .switchStatement => some .switchStatement
  | .caseStatement => some .caseStatement
  | .whileStatement => some .whileStatement
  | .doStatement => some .doStatement
  | .forStatement => some .forStatement
  | .returnStatement => some (.other "return_statement")
  | .breakStatement => some (.other "break_statement")
  | .continueStatement => some (.other "continue_statement")
  | .gotoStatement => some (.other "goto_statement")
  | .tryStatement => some (.other "seh_try_statement")
  | .exceptClause => some (.other "seh_except_clause")
  | .finallyClause => some (.other "seh_finally_clause")
  | .leaveStatement => some (.other "seh_leave_statement")
  | .commaExpression => some (.other "comma_expression")
  | .conditionalExpression => some (.other "conditional_expression")
  | .assignmentExpression => some (.other "assignment_expression")
  | .pointerExpression => some .pointerExpression
  | .updateExpression => some (.other "update_expression")
  | .castExpression => some (.other "cast_expression")
  | .typeDescriptor => some (.other "type_descriptor")
  | .sizeofExpression => some (.other "sizeof_expression")
  | .alignofExpression => some (.other "alignof_expression")
  | .offsetofExpression => some (.other "offsetof_expression")
  | .genericExpression => some (.other "generic_expression")
  | .subscriptExpression => some (.other "subscript_expression")
  | .asmExpression => some (.other "gnu_asm_expression")
  | .asmQualifier => some (.other "gnu_asm_qualifier")
  | .asmOutputs => some (.other "gnu_asm_output_operand_list")
  | .asmOutput => some (.other "gnu_asm_output_operand")
  | .asmInputs => some (.other "gnu_asm_input_operand_list")
  | .asmInput => some (.other "gnu_asm_input_operand")
  | .asmClobbers => some (.other "gnu_asm_clobber_list")
  | .asmLabels => some (.other "gnu_asm_goto_list")
  | .extensionExpression => some (.other "extension_expression")
  | .fieldExpression => some (.other "field_expression")
  | .compoundLiteral => some (.other "compound_literal_expression")
  | .initializerList => some (.other "initializer_list")
  | .initializerPair => some (.other "initializer_pair")
  | .subscriptDesignator => some (.other "subscript_designator")
  | .subscriptRangeDesignator => some (.other "subscript_range_designator")
  | .fieldDesignator => some (.other "field_designator")
  | .charLiteral => some (.other "char_literal")
  | .concatenatedString => some (.other "concatenated_string")
  | .stringLiteral => some (.other "string_literal")
  | .null => some (.other "null")
  | .macroTypeSpecifier => some (.other "macro_type_specifier")
  | _ => none

end Nonterminal

end Uninit.Grammar
