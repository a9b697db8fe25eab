import WireSchema.Emit.Basic

/-! # Support code in TypeScript

The length prefixes, the errors, and the classes that write and read bytes. -/

namespace WireSchema.Emit.TypeScript

/-- The type of the length prefixes. -/
def prefixType : Declaration := ⟨"export type ", "LengthPrefix", " = 'uint8' | 'uint16' | 'uint32' | 'uint64';

"⟩

/-- The greatest length for each prefix. -/
def prefixMax : Declaration := ⟨"const ", "PREFIX_MAX", ": Record<LengthPrefix, number> = \x7b
    uint8: 0xFF,
    uint16: 0xFFFF,
    uint32: 0xFFFFFFFF,
    uint64: Number.MAX_SAFE_INTEGER,
\x7d;

"⟩

/-- The errors. -/
def errorClasses : List Declaration := [
  ⟨"export class ", "BufferUnderflowError", " extends Error \x7b
    constructor(public readonly needed: number, public readonly available: number) \x7b
        super(`Buffer underflow: needed $\x7bneeded\x7d bytes but only $\x7bavailable\x7d available`);
        this.name = 'BufferUnderflowError';
    \x7d
\x7d

"⟩,
  ⟨"export class ", "EnumDecodeError", " extends Error \x7b
    constructor(public readonly enumName: string, public readonly value: number) \x7b
        super(`Invalid value $\x7bvalue\x7d for enum $\x7benumName\x7d`);
        this.name = 'EnumDecodeError';
    \x7d
\x7d

"⟩,
  ⟨"export class ", "LengthOverflowError", " extends Error \x7b
    constructor(public readonly length: number, public readonly max: number) \x7b
        super(`Length $\x7blength\x7d does not fit in a prefix with maximum $\x7bmax\x7d`);
        this.name = 'LengthOverflowError';
    \x7d
\x7d

"⟩]

/-- The class that writes bytes. -/
def writerClass : Declaration := ⟨"/**
 * Little-endian binary writer
 */
export class ", "BinaryWriter", " \x7b
    private buffer: number[] = [];

    writeUint8(value: number): void \x7b
        this.buffer.push(value & 0xFF);
    \x7d

    writeUint16(value: number): void \x7b
        this.buffer.push(value & 0xFF);
        this.buffer.push((value >> 8) & 0xFF);
    \x7d

    writeUint32(value: number): void \x7b
        this.buffer.push(value & 0xFF);
        this.buffer.push((value >> 8) & 0xFF);
        this.buffer.push((value >> 16) & 0xFF);
        this.buffer.push((value >> 24) & 0xFF);
    \x7d

    writeUint64(value: bigint): void \x7b
        const v = BigInt.asUintN(64, value);
        for (let i = 0; i < 8; i++) \x7b
            this.buffer.push(Number((v >> BigInt(i * 8)) & 0xFFn));
        \x7d
    \x7d

    writeInt8(value: number): void \x7b
        this.writeUint8(value);
    \x7d

    writeInt16(value: number): void \x7b
        this.writeUint16(value);
    \x7d

    writeInt32(value: number): void \x7b
        this.writeUint32(value);
    \x7d

    writeInt64(value: bigint): void \x7b
        this.writeUint64(value);
    \x7d

    writeFloat32(value: number): void \x7b
        const view = new DataView(new ArrayBuffer(4));
        view.setFloat32(0, value, true);
        for (let i = 0; i < 4; i++) \x7b
            this.buffer.push(view.getUint8(i));
        \x7d
    \x7d

    writeFloat64(value: number): void \x7b
        const view = new DataView(new ArrayBuffer(8));
        view.setFloat64(0, value, true);
        for (let i = 0; i < 8; i++) \x7b
            this.buffer.push(view.getUint8(i));
        \x7d
    \x7d

    writeBool(value: boolean): void \x7b
        this.writeUint8(value ? 1 : 0);
    \x7d

    writeFixedString(value: string, size: number): void \x7b
        this.writeFixedBytes(new TextEncoder().encode(value), size);
    \x7d

    writeFixedBytes(value: Uint8Array, size: number): void \x7b
        for (let i = 0; i < size; i++) \x7b
            this.buffer.push(i < value.length ? value[i] : 0);
        \x7d
    \x7d

    writeBytes(value: Uint8Array): void \x7b
        for (let i = 0; i < value.length; i++) \x7b
            this.buffer.push(value[i]);
        \x7d
    \x7d

    writeString(value: string): void \x7b
        this.writeBytes(new TextEncoder().encode(value));
    \x7d

    writeLengthPrefixed(value: Uint8Array, prefix: LengthPrefix): void \x7b
        if (value.length > PREFIX_MAX[prefix]) \x7b
            throw new LengthOverflowError(value.length, PREFIX_MAX[prefix]);
        \x7d
        switch (prefix) \x7b
            case 'uint8':
                this.writeUint8(value.length);
                break;
            case 'uint16':
                this.writeUint16(value.length);
                break;
            case 'uint32':
                this.writeUint32(value.length);
                break;
            case 'uint64':
                this.writeUint64(BigInt(value.length));
                break;
        \x7d
        this.writeBytes(value);
    \x7d

    writeLengthPrefixedString(value: string, prefix: LengthPrefix): void \x7b
        this.writeLengthPrefixed(new TextEncoder().encode(value), prefix);
    \x7d

    writeItems<T>(items: T[], writeItem: (writer: BinaryWriter, item: T) => void): void \x7b
        for (const item of items) \x7b
            writeItem(this, item);
        \x7d
    \x7d

    writeLengthPrefixedItems<T>(
        items: T[],
        prefix: LengthPrefix,
        writeItem: (writer: BinaryWriter, item: T) => void,
    ): void \x7b
        const scratch = new BinaryWriter();
        scratch.writeItems(items, writeItem);
        this.writeLengthPrefixed(scratch.toUint8Array(), prefix);
    \x7d

    toUint8Array(): Uint8Array \x7b
        return new Uint8Array(this.buffer);
    \x7d

    get length(): number \x7b
        return this.buffer.length;
    \x7d
\x7d

"⟩

/-- The class that reads bytes. -/
def readerClass : Declaration := ⟨"/**
 * Little-endian binary reader. Reads past the end throw BufferUnderflowError.
 */
export class ", "BinaryReader", " \x7b
    private bytes: Uint8Array;
    private view: DataView;
    private offset: number = 0;

    constructor(buffer: Uint8Array) \x7b
        this.bytes = buffer;
        this.view = new DataView(buffer.buffer, buffer.byteOffset, buffer.byteLength);
    \x7d

    private ensure(size: number): void \x7b
        if (size > this.remaining) \x7b
            throw new BufferUnderflowError(size, this.remaining);
        \x7d
    \x7d

    readUint8(): number \x7b
        this.ensure(1);
        const value = this.view.getUint8(this.offset);
        this.offset += 1;
        return value;
    \x7d

    readUint16(): number \x7b
        this.ensure(2);
        const value = this.view.getUint16(this.offset, true);
        this.offset += 2;
        return value;
    \x7d

    readUint32(): number \x7b
        this.ensure(4);
        const value = this.view.getUint32(this.offset, true);
        this.offset += 4;
        return value;
    \x7d

    readUint64(): bigint \x7b
        this.ensure(8);
        const value = this.view.getBigUint64(this.offset, true);
        this.offset += 8;
        return value;
    \x7d

    readInt8(): number \x7b
        this.ensure(1);
        const value = this.view.getInt8(this.offset);
        this.offset += 1;
        return value;
    \x7d

    readInt16(): number \x7b
        this.ensure(2);
        const value = this.view.getInt16(this.offset, true);
        this.offset += 2;
        return value;
    \x7d

    readInt32(): number \x7b
        this.ensure(4);
        const value = this.view.getInt32(this.offset, true);
        this.offset += 4;
        return value;
    \x7d

    readInt64(): bigint \x7b
        this.ensure(8);
        const value = this.view.getBigInt64(this.offset, true);
        this.offset += 8;
        return value;
    \x7d

    readFloat32(): number \x7b
        this.ensure(4);
        const value = this.view.getFloat32(this.offset, true);
        this.offset += 4;
        return value;
    \x7d

    readFloat64(): number \x7b
        this.ensure(8);
        const value = this.view.getFloat64(this.offset, true);
        this.offset += 8;
        return value;
    \x7d

    readBool(): boolean \x7b
        return this.readUint8() !== 0;
    \x7d

    readFixedString(size: number): string \x7b
        const bytes = this.readBytes(size);
        let end = bytes.indexOf(0);
        if (end === -1) end = size;
        return new TextDecoder().decode(bytes.subarray(0, end));
    \x7d

    readBytes(length: number): Uint8Array \x7b
        this.ensure(length);
        const bytes = this.bytes.slice(this.offset, this.offset + length);
        this.offset += length;
        return bytes;
    \x7d

    readRemaining(): Uint8Array \x7b
        return this.readBytes(this.remaining);
    \x7d

    readRemainingString(): string \x7b
        return new TextDecoder().decode(this.readRemaining());
    \x7d

    readLengthPrefixed(prefix: LengthPrefix): Uint8Array \x7b
        let length: number;
        switch (prefix) \x7b
            case 'uint8':
                length = this.readUint8();
                break;
            case 'uint16':
                length = this.readUint16();
                break;
            case 'uint32':
                length = this.readUint32();
                break;
            case 'uint64':
                length = Number(this.readUint64());
                break;
        \x7d
        return this.readBytes(length);
    \x7d

    readLengthPrefixedString(prefix: LengthPrefix): string \x7b
        return new TextDecoder().decode(this.readLengthPrefixed(prefix));
    \x7d

    readItems<T>(readItem: (reader: BinaryReader) => T): T[] \x7b
        const items: T[] = [];
        while (this.remaining > 0) \x7b
            const start = this.offset;
            items.push(readItem(this));
            if (this.offset === start) \x7b
                throw new Error(`Array item consumed no bytes with $\x7bthis.remaining\x7d bytes left`);
            \x7d
        \x7d
        return items;
    \x7d

    readLengthPrefixedItems<T>(prefix: LengthPrefix, readItem: (reader: BinaryReader) => T): T[] \x7b
        return new BinaryReader(this.readLengthPrefixed(prefix)).readItems(readItem);
    \x7d

    get position(): number \x7b
        return this.offset;
    \x7d

    get remaining(): number \x7b
        return this.view.byteLength - this.offset;
    \x7d
\x7d
"⟩

/-- The declarations of the support code. -/
def supportDeclarations : List Declaration :=
  [prefixType, prefixMax] ++ errorClasses ++ [writerClass, readerClass]

/-- The names that the support code declares. -/
def supportNames : List String := supportDeclarations.map (·.name)

/-- The support code. -/
def support : String := String.join (supportDeclarations.map (·.text))

end WireSchema.Emit.TypeScript
